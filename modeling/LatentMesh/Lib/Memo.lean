import LatentMesh.Lib.SortedMap

/-!
# Memo tables

A function whose values are kept in a map: what is looked up is computed at most once. A table that
holds values of the function only is never wrong (`memo_eq`), and it grows by one entry just when
the function is computed (`memo_size`).
-/

namespace LatentMesh.Lib

variable {κ α : Type} [LinearOrder κ]

/-- The value for a key, from the table if it is there, and the table that holds it. -/
def memo (compute : κ → α) (table : SortedMap κ α) (key : κ) : α × SortedMap κ α :=
  match table.find key with
  | some found => (found, table)
  | none => (compute key, table.insert key (compute key))

/-- The table holds nothing but values of the function. -/
def Memoizes (compute : κ → α) (table : SortedMap κ α) : Prop :=
  ∀ key value, table.find key = some value → value = compute key

variable {compute : κ → α} {table : SortedMap κ α}

/-- The empty table holds no wrong value. -/
theorem memoizes_empty : Memoizes compute .empty := fun _ _ h => by cases h

/-- A memoised call returns what the function computes. -/
theorem memo_eq (h : Memoizes compute table) (key : κ) :
    (memo compute table key).1 = compute key := by
  unfold memo
  split
  · exact h key _ ‹_›
  · rfl

/-- A memoised call stores no wrong value. -/
theorem Memoizes.memo (h : Memoizes compute table) (key : κ) :
    Memoizes compute (memo compute table key).2 := by
  unfold Lib.memo
  split
  · exact h
  · intro other value hvalue
    rcases SortedMap.find_insert_eq_some_iff.mp hvalue with ⟨rfl, rfl⟩ | ⟨-, hold⟩
    · rfl
    · exact h other value hold

/-- A memoised call adds an entry when the key was not stored. -/
theorem memo_size (compute : κ → α) (table : SortedMap κ α) (key : κ) :
    (memo compute table key).2.size = table.size + if (table.find key).isNone then 1 else 0 := by
  unfold memo
  cases hfind : table.find key with
  | some found => rfl
  | none => exact SortedMap.size_insert_of_none _ hfind

/-- After a memoised call the key is stored, and those that were. -/
theorem memo_keys (compute : κ → α) (table : SortedMap κ α) (key other : κ) :
    ((memo compute table key).2.find other).isSome = true ↔
      key = other ∨ (table.find other).isSome = true := by
  unfold memo
  split
  · rename_i found hfind
    refine ⟨Or.inr, fun h => h.elim (fun heq => ?_) id⟩
    rw [← heq, hfind]
    rfl
  · rw [SortedMap.find_insert]
    split
    · rename_i heq
      exact iff_of_true rfl (Or.inl heq)
    · rename_i hne
      exact (or_iff_right hne).symm

end LatentMesh.Lib
