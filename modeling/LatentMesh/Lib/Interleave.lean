import Mathlib.Data.List.GetD
import Mathlib.Data.List.Nodup
import Mathlib.Data.List.Perm.Basic
import Mathlib.Data.List.Range

/-!
# Rectangular interleaving

`columnOrder rows columns length` lists the positions of a rectangle that is filled row by row
and read column by column, skipping the cells a ragged last row does not have. It is a permutation
of the positions (`column_order_perm`), so reading a list in that order (`gather`) and writing a
list back in that order (`scatter`) are inverse to each other.
-/

namespace LatentMesh.Lib

variable {α β : Type}

/-- The positions below `length` of a rectangle, column by column. -/
def columnOrder (rows columns length : Nat) : List Nat :=
  (List.range columns).flatMap fun column =>
    (List.range rows).filterMap fun row =>
      let index := row * columns + column
      if index < length then some index else none

/-- The values at the given positions, in their order. -/
def gather (values : List α) (order : List Nat) : List α :=
  order.filterMap (values[·]?)

/-- Write the values of `source` at the given positions of `target`, in their order. -/
def scatter (order : List Nat) (source target : List α) : List α :=
  (order.zip source).foldl (fun output entry => output.set entry.1 entry.2) target

/-! ## The column order is a permutation -/

/-- The column order visits exactly the indices of the list. -/
theorem mem_column_order {rows columns length : Nat} (h : length ≤ rows * columns) (i : Nat) :
    i ∈ columnOrder rows columns length ↔ i < length := by
  simp only [columnOrder, List.mem_flatMap, List.mem_range, List.mem_filterMap,
    Option.ite_none_right_eq_some, Option.some.injEq]
  constructor
  · rintro ⟨column, -, row, -, hlt, rfl⟩
    exact hlt
  · intro hi
    have hcolumns : 0 < columns := by
      rcases Nat.eq_zero_or_pos columns with rfl | hpos
      · omega
      · exact hpos
    have hindex : i / columns * columns + i % columns = i := Nat.div_add_mod' i columns
    have hrow : i / columns < rows := by
      rw [Nat.div_lt_iff_lt_mul hcolumns]
      omega
    exact ⟨i % columns, Nat.mod_lt i hcolumns, i / columns, hrow, by rwa [hindex], hindex⟩

/-- The column order visits no index twice. -/
theorem column_order_nodup (rows columns length : Nat) :
    (columnOrder rows columns length).Nodup := by
  rw [columnOrder, List.nodup_flatMap]
  constructor
  · intro column hcolumn
    have hlt := List.mem_range.mp hcolumn
    refine List.Nodup.filterMap ?_ List.nodup_range
    intro row row' index hrow hrow'
    simp only [Option.mem_def, Option.ite_none_right_eq_some, Option.some.injEq] at hrow hrow'
    have hmul : row * columns = row' * columns := by omega
    exact Nat.eq_of_mul_eq_mul_right (by omega) hmul
  · refine List.Pairwise.imp_of_mem ?_ (List.nodup_range (n := columns))
    intro column column' hcolumn hcolumn' hne index hmem hmem'
    simp only [List.mem_filterMap, List.mem_range, Option.ite_none_right_eq_some,
      Option.some.injEq] at hmem hmem' hcolumn hcolumn'
    obtain ⟨row, -, -, rfl⟩ := hmem
    obtain ⟨row', -, -, hindex⟩ := hmem'
    have hmod := congrArg (· % columns) hindex
    simp only [Nat.mul_add_mod_self_right, Nat.mod_eq_of_lt hcolumn,
      Nat.mod_eq_of_lt hcolumn'] at hmod
    exact hne hmod.symm

/-- The column order visits every position once. -/
theorem column_order_perm {rows columns length : Nat} (h : length ≤ rows * columns) :
    (columnOrder rows columns length).Perm (List.range length) :=
  (List.perm_ext_iff_of_nodup (column_order_nodup rows columns length) List.nodup_range).mpr
    fun i => by rw [mem_column_order h, List.mem_range]

/-- Rows below the last position are skipped. -/
theorem column_order_add_rows {rows columns length : Nat} (h : length ≤ rows * columns)
    (extra : Nat) :
    columnOrder (rows + extra) columns length = columnOrder rows columns length := by
  unfold columnOrder
  congr 1
  funext column
  rw [List.range_add, List.filterMap_append, List.append_right_eq_self, List.filterMap_eq_nil_iff]
  intro row hrow
  obtain ⟨offset, -, rfl⟩ := List.mem_map.mp hrow
  rw [Nat.add_mul]
  exact if_neg (by omega)

/-- The number of rows does not matter, as long as all positions have a row. -/
theorem column_order_rows {rows rows' columns length : Nat} (h : length ≤ rows * columns)
    (h' : length ≤ rows' * columns) :
    columnOrder rows columns length = columnOrder rows' columns length := by
  rcases Nat.le_total rows rows' with hle | hle
  · obtain ⟨extra, rfl⟩ := Nat.exists_eq_add_of_le hle
    exact (column_order_add_rows h extra).symm
  · obtain ⟨extra, rfl⟩ := Nat.exists_eq_add_of_le hle
    exact column_order_add_rows h' extra

/-! ## Reading and writing in an order -/

variable {order : List Nat}

/-- Gathering at an index first takes the value there. -/
theorem gather_cons {values : List α} {i : Nat} (hi : i < values.length) :
    gather values (i :: order) = values[i] :: gather values order := by
  rw [gather, List.filterMap_cons, List.getElem?_eq_getElem hi]
  rfl

/-- Gathering gives a value for every index. -/
theorem gather_length {values : List α} (h : ∀ i ∈ order, i < values.length) :
    (gather values order).length = order.length := by
  induction order with
  | nil => rfl
  | cons i order ih =>
      rw [gather_cons (h i (by simp)), List.length_cons, List.length_cons,
        ih fun j hj => h j (by simp [hj])]

/-- Entry `k` of a gathered list is the value at position `order[k]`. -/
theorem gather_get {values : List α} (h : ∀ i ∈ order, i < values.length) (k : Nat)
    (hk : k < order.length) :
    (gather values order)[k]? = values[order[k]]? := by
  induction order generalizing k with
  | nil => cases hk
  | cons i order ih =>
      rw [gather_cons (h i (by simp))]
      cases k with
      | zero => simp
      | succ k => simpa using ih (fun j hj => h j (by simp [hj])) k (by simpa using hk)

/-- Reading all positions in their natural order gives the values back. -/
theorem gather_range (values : List α) : gather values (List.range values.length) = values := by
  have hbound : ∀ i ∈ List.range values.length, i < values.length := fun i => List.mem_range.mp
  apply List.ext_getElem?
  intro k
  by_cases hk : k < values.length
  · rw [gather_get hbound k (by simpa using hk), List.getElem_range]
  · rw [List.getElem?_eq_none (by simpa [gather_length hbound] using hk),
      List.getElem?_eq_none (by omega)]

/-- Reading all positions in some order permutes the values. -/
theorem gather_perm {values : List α} (h : order.Perm (List.range values.length)) :
    (gather values order).Perm values := by
  have hperm : (gather values order).Perm (gather values (List.range values.length)) :=
    h.filterMap _
  rwa [gather_range] at hperm

/-- Gathering commutes with a map on the values. -/
theorem gather_map (f : α → β) (values : List α) :
    gather (values.map f) order = (gather values order).map f := by
  simp only [gather, List.getElem?_map, List.map_filterMap]

/-- Reading two lists of one length in the same order. -/
theorem gather_zip_with {γ : Type} (f : α → β → γ) {left : List α} {right : List β}
    (hlength : left.length = right.length) (h : ∀ i ∈ order, i < left.length) :
    gather (left.zipWith f right) order = (gather left order).zipWith f (gather right order) := by
  induction order with
  | nil => rfl
  | cons i order ih =>
      have hi := h i (by simp)
      rw [gather_cons (by simpa [← hlength] using hi), gather_cons hi, gather_cons (by omega),
        ih fun j hj => h j (by simp [hj])]
      simp

/-- Scattering keeps the length of the target. -/
@[simp] theorem scatter_length (order : List Nat) (source target : List α) :
    (scatter order source target).length = target.length := by
  unfold scatter
  induction order.zip source generalizing target with
  | nil => rfl
  | cons entry rest ih => simp [ih]

/-- A position that is not in the order keeps its value. -/
theorem scatter_get_of_notMem (source target : List α) {i : Nat} (h : i ∉ order) :
    (scatter order source target)[i]? = target[i]? := by
  induction order generalizing source target with
  | nil => rfl
  | cons j order ih =>
      cases source with
      | nil => rfl
      | cons value source =>
          have hij : j ≠ i := fun hij => h (by simp [hij])
          have hrest := ih source (target.set j value) (fun hmem => h (by simp [hmem]))
          rw [List.getElem?_set_ne hij] at hrest
          exact hrest

/-- Position `order[k]` of a scattered list holds entry `k` of the source. -/
theorem scatter_get (source target : List α) (hnodup : order.Nodup)
    (hlength : source.length = order.length) (htarget : ∀ i ∈ order, i < target.length) (k : Nat)
    (hk : k < order.length) :
    (scatter order source target)[order[k]]? = source[k]? := by
  induction order generalizing source target k with
  | nil => cases hk
  | cons j order ih =>
      obtain ⟨value, source, rfl⟩ := List.exists_cons_of_length_eq_add_one hlength
      obtain ⟨hj, hnodup⟩ := List.nodup_cons.mp hnodup
      have hset : ∀ i ∈ order, i < (target.set j value).length := by
        intro i hi
        rw [List.length_set]
        exact htarget i (by simp [hi])
      cases k with
      | zero =>
          have hkeep := scatter_get_of_notMem source (target.set j value) hj
          rw [List.getElem?_set_self (htarget j (by simp))] at hkeep
          exact hkeep
      | succ k =>
          exact ih source (target.set j value) hnodup (by simpa using hlength) hset k
            (by simpa using hk)

/-- Reading in an order undoes writing in it. -/
theorem gather_scatter (source target : List α) (h : order.Perm (List.range target.length))
    (hlength : source.length = target.length) :
    gather (scatter order source target) order = source := by
  have horder : order.length = target.length := by rw [h.length_eq, List.length_range]
  have hbound : ∀ i ∈ order, i < target.length := fun i hi => List.mem_range.mp (h.mem_iff.mp hi)
  have hnodup : order.Nodup := h.nodup_iff.mpr List.nodup_range
  have hscatter : ∀ i ∈ order, i < (scatter order source target).length := by
    simpa using hbound
  apply List.ext_getElem?
  intro k
  by_cases hk : k < order.length
  · rw [gather_get hscatter k hk, scatter_get source target hnodup (by omega) hbound k hk]
  · rw [List.getElem?_eq_none (by rw [gather_length hscatter]; omega),
      List.getElem?_eq_none (by omega)]

/-- Writing in an order undoes reading in it. -/
theorem scatter_gather (values target : List α) (h : order.Perm (List.range values.length))
    (hlength : values.length = target.length) :
    scatter order (gather values order) target = values := by
  have hbound : ∀ i ∈ order, i < values.length := fun i hi => List.mem_range.mp (h.mem_iff.mp hi)
  have hnodup : order.Nodup := h.nodup_iff.mpr List.nodup_range
  apply List.ext_getElem?
  intro i
  by_cases hi : i < values.length
  · obtain ⟨k, hk, rfl⟩ := List.mem_iff_getElem.mp (h.mem_iff.mpr (List.mem_range.mpr hi))
    rw [scatter_get _ _ hnodup (gather_length hbound) (by rwa [← hlength]) k hk,
      gather_get hbound k hk]
  · rw [List.getElem?_eq_none (by rw [scatter_length]; omega), List.getElem?_eq_none (by omega)]

end LatentMesh.Lib
