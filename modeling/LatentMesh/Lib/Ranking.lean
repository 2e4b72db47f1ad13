import Mathlib.Data.List.Nodup

/-!
# Ranks, stable sorting and scattered writes

In a list that is sorted by a strict order, the first items are those that few items come before
(`mem_take_iff_rank_lt`). Where a sort sees no difference between two items they keep their order
(`merge_sort_stable`). Writes at distinct positions of a list do not disturb each other
(`write_all_get`).
-/

namespace LatentMesh.Lib

variable {α : Type}

/-- An item of a sorted list is among the first ones exactly when fewer items come before it. -/
theorem mem_take_iff_rank_lt {before : α → α → Bool} {items : List α}
    (hsorted : items.Pairwise fun first second => before first second = true)
    (hasymm : ∀ first second, before first second = true → before second first = false)
    {item : α} (hitem : item ∈ items) {count : Nat} :
    item ∈ items.take count ↔ (items.countP fun other => before other item) < count := by
  induction items generalizing count with
  | nil => cases hitem
  | cons first rest ih =>
      obtain ⟨hfirst, hrest⟩ := List.pairwise_cons.mp hsorted
      have hself : before first first = false := by
        by_contra hbefore
        rw [Bool.not_eq_false] at hbefore
        rw [hasymm _ _ hbefore] at hbefore
        cases hbefore
      cases count with
      | zero => simp
      | succ count =>
          rcases List.mem_cons.mp hitem with rfl | hmem
          · -- nothing comes before the first item
            have hnone : (rest.countP fun other => before other item) = 0 :=
              List.countP_eq_zero.mpr fun other hother => by
                rw [hasymm _ _ (hfirst other hother)]
                decide
            rw [List.countP_cons_of_neg (by rw [hself]; decide), hnone]
            simp
          · have hne : item ≠ first := by
              rintro rfl
              rw [hfirst _ hmem] at hself
              cases hself
            have hbefore : before first item = true := hfirst _ hmem
            rw [List.countP_cons, if_pos hbefore, List.take_succ_cons, List.mem_cons,
              or_iff_right hne, ih hrest hmem, Nat.succ_lt_succ_iff]

/-- An item of a sorted list is not above those behind it, and where it is not below them either the
two stand as they stood before. -/
theorem merge_sort_stable {le : α → α → Bool}
    (htrans : ∀ first second third, le first second = true → le second third = true →
      le first third = true)
    (htotal : ∀ first second, (le first second || le second first) = true)
    {before : α → α → Prop} {items : List α} (hitems : items.Pairwise before) :
    (items.mergeSort le).Pairwise fun first second =>
      le first second = true ∧ (le second first = true → before first second) := by
  rw [← List.mergeSort_zipIdx, List.pairwise_map]
  have hsorted := List.pairwise_mergeSort (List.zipIdxLE_trans htrans) (List.zipIdxLE_total htotal)
    items.zipIdx
  have hnodup : (items.zipIdx.mergeSort (List.zipIdxLE le)).Nodup := by
    refine (List.mergeSort_perm _ _).nodup_iff.mpr (List.Nodup.of_map Prod.snd ?_)
    rw [List.zipIdx_map_snd]
    exact List.nodup_range'
  refine (hsorted.and hnodup).imp_of_mem ?_
  rintro ⟨first, index⟩ ⟨second, index'⟩ hfirst hsecond ⟨hle, hne⟩
  rw [List.mem_mergeSort] at hfirst hsecond
  obtain ⟨hindex, hget⟩ := List.mem_zipIdx_iff_getElem?.mp hfirst |> List.getElem?_eq_some_iff.mp
  obtain ⟨hindex', hget'⟩ := List.mem_zipIdx_iff_getElem?.mp hsecond |> List.getElem?_eq_some_iff.mp
  unfold List.zipIdxLE at hle
  split at hle
  · rename_i hforward
    refine ⟨hforward, fun hback => ?_⟩
    rw [if_pos hback, decide_eq_true_eq] at hle
    have hlt : index < index' := by
      refine Nat.lt_of_le_of_ne hle fun heq => hne ?_
      dsimp only at heq hget hget'
      subst heq
      rw [← hget, ← hget']
    have hbefore := List.pairwise_iff_getElem.mp hitems index index' hindex hindex' hlt
    dsimp only at hget hget'
    rwa [hget, hget'] at hbefore
  · cases hle

/-- The list after writes at the given positions. -/
def writeAll (items : List α) (writes : List (Nat × α)) : List α :=
  writes.foldl (fun items write => items.set write.1 write.2) items

/-- Writes keep the length. -/
@[simp] theorem write_all_length (items : List α) (writes : List (Nat × α)) :
    (writeAll items writes).length = items.length := by
  induction writes generalizing items with
  | nil => rfl
  | cons write writes ih => rw [writeAll, List.foldl_cons, ← writeAll, ih, List.length_set]

/-- A position that is not written keeps its item. -/
theorem write_all_get_other {items : List α} {writes : List (Nat × α)} {index : Nat}
    (h : ∀ write ∈ writes, write.1 ≠ index) : (writeAll items writes)[index]? = items[index]? := by
  induction writes generalizing items with
  | nil => rfl
  | cons write writes ih =>
      obtain ⟨hwrite, hrest⟩ := List.forall_mem_cons.mp h
      rw [writeAll, List.foldl_cons, ← writeAll, ih hrest, List.getElem?_set_ne hwrite]

/-- A position that is written once holds what is written. -/
theorem write_all_get {items : List α} {writes : List (Nat × α)}
    (hdistinct : (writes.map Prod.fst).Nodup) {write : Nat × α} (hwrite : write ∈ writes)
    (hindex : write.1 < items.length) : (writeAll items writes)[write.1]? = some write.2 := by
  induction writes generalizing items with
  | nil => cases hwrite
  | cons first writes ih =>
      obtain ⟨hfirst, hrest⟩ := List.nodup_cons.mp hdistinct
      rw [writeAll, List.foldl_cons, ← writeAll]
      rcases List.mem_cons.mp hwrite with rfl | hmem
      · rw [write_all_get_other fun other hother heq =>
          hfirst (List.mem_map.mpr ⟨other, hother, heq⟩)]
        exact List.getElem?_set_self hindex
      · exact ih hrest hmem (by rwa [List.length_set])

end LatentMesh.Lib
