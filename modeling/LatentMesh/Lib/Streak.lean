import Mathlib.Data.List.Basic

/-!
# Runs of one kind

A list that grows at its front holds `n` elements of a kind in a row when it did before, or when `n`
of them now stand at its front.
-/

namespace LatentMesh.Lib

variable {α : Type} {p : α → Prop} [DecidablePred p] {n : Nat} {x : α} {xs : List α}

/-- How many elements at the front of a list satisfy `p`. -/
def streak (p : α → Prop) [DecidablePred p] : List α → Nat
  | [] => 0
  | x :: xs => if p x then streak p xs + 1 else 0

/-- Some `n` elements in a row satisfy `p`. -/
def HasRun (p : α → Prop) (n : Nat) (xs : List α) : Prop :=
  ∃ before run after, xs = before ++ (run ++ after) ∧ run.length = n ∧ ∀ x ∈ run, p x

/-- An item with the property lengthens the streak. -/
theorem streak_cons_of_pos (h : p x) : streak p (x :: xs) = streak p xs + 1 := if_pos h

/-- An item without the property ends the streak. -/
theorem streak_cons_of_neg (h : ¬ p x) : streak p (x :: xs) = 0 := if_neg h

omit [DecidablePred p] in
/-- There is no run in an empty list. -/
theorem not_has_run_nil (h : 0 < n) : ¬ HasRun p n [] := by
  rintro ⟨before, run, after, heq, rfl, -⟩
  obtain ⟨-, hrest⟩ := List.append_eq_nil_iff.mp heq.symm
  rw [(List.append_eq_nil_iff.mp hrest).1] at h
  exact absurd h (Nat.lt_irrefl 0)

/-- The run at the front. -/
theorem le_streak_iff :
    n ≤ streak p xs ↔ ∃ run after, xs = run ++ after ∧ run.length = n ∧ ∀ x ∈ run, p x := by
  constructor
  · intro h
    induction n generalizing xs with
    | zero => exact ⟨[], xs, rfl, rfl, fun y hy => nomatch hy⟩
    | succ n ih =>
        cases xs with
        | nil => exact absurd h (Nat.not_succ_le_zero n)
        | cons first rest =>
            by_cases hfirst : p first
            · rw [streak_cons_of_pos hfirst] at h
              obtain ⟨run, after, rfl, rfl, hrun⟩ := ih (Nat.le_of_succ_le_succ h)
              exact ⟨first :: run, after, rfl, rfl, List.forall_mem_cons.mpr ⟨hfirst, hrun⟩⟩
            · rw [streak_cons_of_neg hfirst] at h
              exact absurd h (Nat.not_succ_le_zero n)
  · rintro ⟨run, after, rfl, rfl, hrun⟩
    induction run with
    | nil => exact Nat.zero_le _
    | cons first run ih =>
        obtain ⟨hfirst, hrest⟩ := List.forall_mem_cons.mp hrun
        rw [List.cons_append, streak_cons_of_pos hfirst]
        exact Nat.succ_le_succ (ih hrest)

/-- A new run is at the front. -/
theorem has_run_cons_iff : HasRun p n (x :: xs) ↔ HasRun p n xs ∨ n ≤ streak p (x :: xs) := by
  rw [le_streak_iff]
  constructor
  · rintro ⟨before, run, after, heq, hlength, hrun⟩
    cases before with
    | nil => exact Or.inr ⟨run, after, heq, hlength, hrun⟩
    | cons first before =>
        obtain ⟨-, hrest⟩ := List.cons.inj heq
        exact Or.inl ⟨before, run, after, hrest, hlength, hrun⟩
  · rintro (⟨before, run, after, rfl, hlength, hrun⟩ | ⟨run, after, heq, hlength, hrun⟩)
    · exact ⟨x :: before, run, after, rfl, hlength, hrun⟩
    · exact ⟨[], run, after, heq, hlength, hrun⟩

/-- A long enough streak is a run. -/
theorem has_run_of_le_streak (h : n ≤ streak p xs) : HasRun p n xs := by
  obtain ⟨run, after, heq, hlength, hrun⟩ := le_streak_iff.mp h
  exact ⟨[], run, after, heq, hlength, hrun⟩

end LatentMesh.Lib
