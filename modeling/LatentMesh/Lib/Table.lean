import Mathlib.Data.List.FinRange

/-!
# Tables of a fixed size

A table is a function of its index. `firstIndex` finds the first entry with a property and
`oldestFrom` picks the entry to replace: a free one, or else one of the smallest age.
-/

namespace LatentMesh.Lib

variable {n : Nat} {α : Type} [LT α] [DecidableLT α]

/-- The first index with a property. -/
def firstIndex (p : Fin n → Bool) : Option (Fin n) := (List.finRange n).find? p

/-- The loop that picks the entry to replace: the first free one, or else the first with the
smallest age. -/
def oldestFrom (used : Fin n → Bool) (age : Fin n → α) : List (Fin n) → Fin n → Fin n
  | [], oldest => oldest
  | i :: rest, oldest =>
      if used i = false then i
      else oldestFrom used age rest (if age i < age oldest then i else oldest)

/-- There is no first index when no index has the property. -/
theorem first_index_eq_none_iff {p : Fin n → Bool} : firstIndex p = none ↔ ∀ i, p i = false := by
  simp [firstIndex]

/-- The first index has the property. -/
theorem first_index_spec {p : Fin n → Bool} {i : Fin n} (h : firstIndex p = some i) :
    p i = true :=
  List.find?_some h

/-- The first index with a property that at most one index has. -/
theorem first_index_eq_some_iff {p : Fin n → Bool}
    (hunique : ∀ i j, p i = true → p j = true → i = j) {i : Fin n} :
    firstIndex p = some i ↔ p i = true := by
  refine ⟨first_index_spec, fun hi => ?_⟩
  cases hfirst : firstIndex p with
  | none => exact absurd hi (by rw [first_index_eq_none_iff.mp hfirst i]; exact Bool.false_ne_true)
  | some j => rw [hunique j i (first_index_spec hfirst) hi]

/-- A table with a free entry among those searched gives up a free one. -/
theorem oldest_from_free {used : Fin n → Bool} {age : Fin n → α} {rest : List (Fin n)}
    (h : ∃ i ∈ rest, used i = false) (oldest : Fin n) :
    used (oldestFrom used age rest oldest) = false := by
  induction rest generalizing oldest with
  | nil =>
      obtain ⟨i, hi, _⟩ := h
      cases hi
  | cons first rest ih =>
      rw [oldestFrom]
      by_cases hfirst : used first = false
      · rw [if_pos hfirst]
        exact hfirst
      · rw [if_neg hfirst]
        obtain ⟨i, hi, hfree⟩ := h
        rcases List.mem_cons.mp hi with rfl | hrest
        · exact absurd hfree hfirst
        · exact ih ⟨i, hrest, hfree⟩ _

/-- Only a table without a free entry gives up one in use. -/
theorem used_of_oldest_used {used : Fin n → Bool} {age : Fin n → α} {start : Fin n}
    (h : used (oldestFrom used age (List.finRange n) start) = true) (i : Fin n) :
    used i = true := by
  by_contra hfree
  have hgives := @oldest_from_free n α _ _ used age (List.finRange n)
    ⟨i, List.mem_finRange i, Bool.eq_false_iff.mpr hfree⟩ start
  rw [hgives] at h
  cases h

/-- An entry of a table after one entry was set. -/
theorem vector_set_get {β : Type} (table : Vector β n) (k i : Fin n) (entry : β) :
    (table.set k entry)[i] = if i = k then entry else table[i] := by
  rw [Fin.getElem_fin, Fin.getElem_fin, Vector.getElem_set]
  by_cases hi : i = k
  · rw [if_pos hi, if_pos (congrArg Fin.val hi.symm)]
  · rw [if_neg hi, if_neg fun hval => hi (Fin.ext hval.symm)]

/-- Writing an entry with a property keeps it for the whole table. -/
theorem forall_get_set {β : Type} {P : β → Prop} {table : Vector β n}
    (h : ∀ i, P (table.get i)) (k : Fin n) {entry : β} (hentry : P entry) (i : Fin n) :
    P ((table.set k entry k.isLt).get i) := by
  have hget : (table.set k entry k.isLt).get i = if i = k then entry else table.get i :=
    vector_set_get table k i entry
  rw [hget]
  split
  · exact hentry
  · exact h i

end LatentMesh.Lib
