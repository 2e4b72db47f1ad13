import Mathlib.Data.List.Basic

/-!
# Guarded results

When a chain of fallible operations and guards succeeds, with any error type, and when two such
chains have the same errors and related results (`Agree`).
-/

namespace LatentMesh.Lib

variable {ε α β : Type}

/-- A sequence of two fallible operations succeeds exactly when both do. -/
theorem bind_eq_ok_iff {first : Except ε α} {rest : α → Except ε β} {value : β} :
    first.bind rest = .ok value ↔ ∃ middle, first = .ok middle ∧ rest middle = .ok value := by
  cases first <;> simp [Except.bind]

/-- A mapped result succeeds with the image of what was found. -/
theorem map_eq_ok_iff {result : Except ε α} {f : α → β} {value : β} :
    result.map f = .ok value ↔ ∃ found, result = .ok found ∧ f found = value := by
  cases result <;> simp [Except.map]

/-- Wrapping the error leaves success as it is. -/
theorem map_error_eq_ok_iff {δ : Type} {wrap : ε → δ} {result : Except ε α} {value : α} :
    result.mapError wrap = .ok value ↔ result = .ok value := by
  cases result <;> simp [Except.mapError]

/-- A guard that returns an error passes exactly when its condition does not hold. -/
theorem guard_eq_ok_iff {condition : Prop} [Decidable condition] {error : ε} {rest : Except ε α}
    {value : α} :
    (if condition then .error error else rest) = .ok value ↔ ¬ condition ∧ rest = .ok value := by
  by_cases h : condition <;> simp [h]

/-- A fold ends with an error only where one of its steps does. -/
theorem exists_of_foldlM_eq_error {step : β → α → Except ε β} {items : List α} {start : β}
    {error : ε} (h : items.foldlM step start = .error error) :
    ∃ state, ∃ item ∈ items, step state item = .error error := by
  induction items generalizing start with
  | nil => cases h
  | cons first items ih =>
      rw [List.foldlM_cons] at h
      cases hstep : step start first with
      | error found =>
          rw [hstep] at h
          cases h
          exact ⟨start, first, List.mem_cons_self, hstep⟩
      | ok next =>
          rw [hstep] at h
          obtain ⟨state, item, hitem, hfound⟩ := ih h
          exact ⟨state, item, List.mem_cons_of_mem _ hitem, hfound⟩

/-- What every step of a fold keeps, the fold keeps. -/
theorem foldlM_keeps {step : β → α → Except ε β} {items : List α} (P : β → Prop)
    (hstep : ∀ state next, ∀ item ∈ items, P state → step state item = .ok next → P next)
    {start last : β} (hstart : P start) (h : items.foldlM step start = .ok last) : P last := by
  induction items generalizing start with
  | nil =>
      cases h
      exact hstart
  | cons first items ih =>
      rw [List.foldlM_cons] at h
      obtain ⟨next, hnext, hrest⟩ := bind_eq_ok_iff.mp h
      exact ih (fun state next item hitem => hstep state next item (List.mem_cons_of_mem _ hitem))
        (hstep start next first List.mem_cons_self hstart hnext) hrest

/-! ## Two computations that agree -/

/-- Both fail with one error, or both succeed with related results. -/
inductive Agree {γ : Type} (R : α → γ → Prop) : Except ε α → Except ε γ → Prop where
  | error (error : ε) : Agree R (.error error) (.error error)
  | ok {value : α} {other : γ} (related : R value other) : Agree R (.ok value) (.ok other)

namespace Agree

variable {γ δ : Type} {R : α → γ → Prop} {S : β → δ → Prop} {result : Except ε α}
  {other : Except ε γ}

/-- Related results are mapped to related results. -/
theorem map {f : α → β} {g : γ → δ} (h : Agree R result other)
    (hmap : ∀ value found, R value found → S (f value) (g found)) :
    Agree S (result.map f) (other.map g) := by
  cases h with
  | error error => exact .error error
  | ok related => exact .ok (hmap _ _ related)

/-- Related results are continued by related computations. -/
theorem bind {f : α → Except ε β} {g : γ → Except ε δ} (h : Agree R result other)
    (hbind : ∀ value found, R value found → Agree S (f value) (g found)) :
    Agree S (result.bind f) (other.bind g) := by
  cases h with
  | error error => exact .error error
  | ok related => exact hbind _ _ related

/-- A relation that is a function says what the other result is. -/
theorem map_eq {f : α → γ} (h : Agree (fun value found => f value = found) result other) :
    result.map f = other := by
  cases h with
  | error error => rfl
  | ok related => exact congrArg Except.ok related

/-- The other of two agreeing results succeeds as well. -/
theorem exists_of_ok {value : α} (h : Agree R (.ok value) other) :
    ∃ found, other = .ok found ∧ R value found := by
  cases h with
  | ok related => exact ⟨_, rfl, related⟩

/-- A weaker relation holds of agreeing results. -/
theorem mono {T : α → γ → Prop} (h : Agree R result other)
    (himp : ∀ value found, R value found → T value found) : Agree T result other := by
  cases h with
  | error error => exact .error error
  | ok related => exact .ok (himp _ _ related)

/-- Folds whose steps agree on related states agree. -/
theorem foldlM {ι : Type} {step : α → ι → Except ε α} {stepOther : γ → ι → Except ε γ}
    (hstep : ∀ state found item, R state found →
      Agree R (step state item) (stepOther found item))
    (items : List ι) {start : α} {startOther : γ} (hstart : R start startOther) :
    Agree R (items.foldlM step start) (items.foldlM stepOther startOther) := by
  induction items generalizing start startOther with
  | nil => exact .ok hstart
  | cons item items ih =>
      rw [List.foldlM_cons, List.foldlM_cons]
      exact (hstep start startOther item hstart).bind fun _ _ => ih

end Agree

end LatentMesh.Lib
