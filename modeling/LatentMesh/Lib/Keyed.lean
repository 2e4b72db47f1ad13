import Mathlib.Data.List.Nodup
import Mathlib.Data.List.Perm.Subperm

/-!
# Keyed lists

A list of items with distinct keys is a finite map (`find_eq_some_iff`). Replacing an item by one of
the same key, removing an item and adding one of a new key act on that key only.
-/

namespace LatentMesh.Lib.Keyed

variable {α κ : Type} {key : α → κ} {items other : List α} {item old : α}
  {index : Nat}

/-- No two items have the same key. -/
def Distinct (key : α → κ) (items : List α) : Prop := (items.map key).Nodup

/-- Distinct keys stay distinct under a permutation. -/
theorem Distinct.perm (h : Distinct key items) (hperm : other.Perm items) : Distinct key other :=
  (hperm.map key).nodup_iff.mpr h

/-- Replacing an item by one with its key keeps the keys. -/
theorem map_set_of_key_eq (hget : items[index]? = some old) (hkey : key item = key old) :
    (items.set index item).map key = items.map key := by
  refine List.ext_getElem? fun i => ?_
  rw [List.getElem?_map, List.getElem?_map, List.getElem?_set]
  split
  · rename_i heq
    subst heq
    rw [if_pos (List.getElem?_eq_some_iff.mp hget).1, hget]
    exact congrArg some hkey
  · rfl

/-- Replacing an item by one with its key keeps the keys distinct. -/
theorem Distinct.set (h : Distinct key items) (hget : items[index]? = some old)
    (hkey : key item = key old) : Distinct key (items.set index item) := by
  show ((items.set index item).map key).Nodup
  rw [map_set_of_key_eq hget hkey]
  exact h

/-- Removing an item keeps the keys distinct. -/
theorem Distinct.erase (h : Distinct key items) (index : Nat) :
    Distinct key (items.eraseIdx index) :=
  h.sublist ((List.eraseIdx_sublist items index).map key)

/-! ## Looking up -/

variable [DecidableEq κ]

/-- The first item with a key. -/
def find (key : α → κ) (items : List α) (k : κ) : Option α :=
  items.find? fun item => key item = k

/-- A key is not found when no item has it. -/
theorem find_eq_none_iff {k : κ} : find key items k = none ↔ ∀ item ∈ items, key item ≠ k := by
  simp [find]

/-- What is found is an item with the key. -/
theorem mem_of_find {k : κ} (h : find key items k = some item) : item ∈ items ∧ key item = k :=
  ⟨List.mem_of_find?_eq_some h, by simpa using List.find?_some h⟩

/-- Where the keys are distinct, the item with a key is the one that is found. -/
theorem find_eq_some_iff (hdistinct : Distinct key items) {k : κ} :
    find key items k = some item ↔ item ∈ items ∧ key item = k := by
  refine ⟨mem_of_find, fun ⟨hitem, hkey⟩ => ?_⟩
  cases hfind : find key items k with
  | none => exact absurd hkey (find_eq_none_iff.mp hfind item hitem)
  | some found =>
      obtain ⟨hfound, hfoundKey⟩ := mem_of_find hfind
      rw [List.inj_on_of_nodup_map hdistinct hfound hitem (hfoundKey.trans hkey.symm)]

/-- Without the items of one key. -/
theorem find_filter_ne (dropped k : κ) :
    find key (items.filter fun item => key item ≠ dropped) k =
      if k = dropped then none else find key items k := by
  unfold find
  rw [List.find?_filter]
  split
  · rename_i hdropped
    subst hdropped
    simp
  · rename_i hkept
    congr 1
    funext item
    by_cases hkey : key item = k
    · subst hkey
      simp [hkept]
    · simp [hkey]

/-! ## Reordering -/

/-- The order of the items does not matter. -/
theorem find_perm (h : Distinct key items) (hperm : other.Perm items) (k : κ) :
    find key other k = find key items k := by
  refine Option.ext fun item => ?_
  rw [find_eq_some_iff h, find_eq_some_iff (h.perm hperm), hperm.mem_iff]

/-! ## Adding an item -/

/-- An item with a new key keeps the keys distinct. -/
theorem Distinct.append_new (h : Distinct key items) (hnew : find key items (key item) = none) :
    Distinct key (items ++ [item]) := by
  show ((items ++ [item]).map key).Nodup
  rw [List.map_append, List.nodup_append]
  refine ⟨h, List.nodup_singleton _, fun k hk k' hk' => ?_⟩
  obtain ⟨present, hpresent, rfl⟩ := List.mem_map.mp hk
  rw [List.mem_singleton.mp hk']
  exact find_eq_none_iff.mp hnew present hpresent

/-- An appended item does not change what is found under other keys. -/
theorem find_append_other {k : κ} (hkey : key item ≠ k) :
    find key (items ++ [item]) k = find key items k := by
  simp [find, hkey]

/-! ## Replacing an item -/

/-- A replaced item does not change what is found under other keys. -/
theorem find_set_other (hget : items[index]? = some old) (hkey : key item = key old) {k : κ}
    (hother : key item ≠ k) : find key (items.set index item) k = find key items k := by
  induction items generalizing index with
  | nil => rfl
  | cons first rest ih =>
      cases index with
      | zero =>
          cases hget
          simp [find, hother, ← hkey]
      | succ index =>
          have hrest := @ih index hget
          simp only [find] at hrest
          simp only [find, List.set_cons_succ, List.find?_cons, hrest]

/-- A replaced item is found under its key. -/
theorem find_set_self (h : Distinct key items) (hget : items[index]? = some old)
    (hkey : key item = key old) : find key (items.set index item) (key item) = some item := by
  rw [find_eq_some_iff (h.set hget hkey)]
  exact ⟨List.mem_of_getElem? (List.getElem?_set_self (List.getElem?_eq_some_iff.mp hget).1), rfl⟩

/-! ## Removing an item -/

/-- A removed item does not change what is found under other keys. -/
theorem find_erase_other (hget : items[index]? = some old) {k : κ} (hother : key old ≠ k) :
    find key (items.eraseIdx index) k = find key items k := by
  induction items generalizing index with
  | nil => rfl
  | cons first rest ih =>
      cases index with
      | zero =>
          cases hget
          simp [find, hother]
      | succ index =>
          have hrest := @ih index hget
          simp only [find] at hrest
          simp only [find, List.eraseIdx_cons_succ, List.find?_cons, hrest]

/-- Where the keys are distinct, a removed item's key is not found. -/
theorem find_erase_self (h : Distinct key items) (hget : items[index]? = some old) :
    find key (items.eraseIdx index) (key old) = none := by
  induction items generalizing index with
  | nil => rfl
  | cons first rest ih =>
      obtain ⟨hfirst, hrest⟩ := List.nodup_cons.mp h
      cases index with
      | zero =>
          cases hget
          exact find_eq_none_iff.mpr fun item hitem hkey =>
            hfirst (hkey ▸ List.mem_map_of_mem hitem)
      | succ index =>
          have hold : key first ≠ key old := fun hkey =>
            hfirst (hkey ▸ List.mem_map_of_mem (List.mem_of_getElem? hget))
          have hnone := @ih index hrest hget
          simp only [find] at hnone
          simp [find, hold, hnone]

/-! ## Counting -/

/-- Items whose keys are those of other items, one of them unused, are fewer. -/
theorem length_lt_of_unused {β : Type} {keyOf : β → κ} {all : List β} {unused : β}
    (h : Distinct key items) (hkeys : ∀ item ∈ items, ∃ x ∈ all, key item = keyOf x)
    (hunused : unused ∈ all) (hfree : find key items (keyOf unused) = none) :
    items.length < all.length := by
  have hnodup : (keyOf unused :: items.map key).Nodup := by
    refine List.nodup_cons.mpr ⟨fun hmem => ?_, h⟩
    obtain ⟨item, hitem, hkey⟩ := List.mem_map.mp hmem
    exact find_eq_none_iff.mp hfree item hitem hkey
  have hsubset : keyOf unused :: items.map key ⊆ all.map keyOf := by
    intro k hk
    rcases List.mem_cons.mp hk with rfl | hk
    · exact List.mem_map_of_mem hunused
    · obtain ⟨item, hitem, rfl⟩ := List.mem_map.mp hk
      obtain ⟨x, hx, hkey⟩ := hkeys item hitem
      exact hkey ▸ List.mem_map_of_mem hx
  have hlength := (List.subperm_of_subset hnodup hsubset).length_le
  rwa [List.length_cons, List.length_map, List.length_map] at hlength

end LatentMesh.Lib.Keyed
