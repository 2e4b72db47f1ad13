import Mathlib.Data.List.Basic

/-!
# Fixed-size buffers

A buffer is a list whose length never changes. `readAt` reads a range of it and `writeAt` copies
items over a range. A read of what was written gives it back (`read_at_write_at`), and a read beside
it sees the old contents (`read_at_write_at_beside`).
-/

namespace LatentMesh.Lib

variable {α : Type}

/-- The `count` items from `offset` on. -/
def readAt (buffer : List α) (offset count : Nat) : List α := (buffer.drop offset).take count

/-- The buffer with `items` copied to `offset`. Nothing is written past the end. -/
def writeAt (buffer : List α) (offset : Nat) (items : List α) : List α :=
  (buffer.take offset ++ items ++ buffer.drop (offset + items.length)).take buffer.length

@[simp] theorem write_at_length (buffer : List α) (offset : Nat) (items : List α) :
    (writeAt buffer offset items).length = buffer.length := by
  simp only [writeAt, List.length_take, List.length_append, List.length_drop]
  omega

/-- Inside the buffer a write cuts nothing off. -/
theorem write_at_eq {buffer items : List α} {offset : Nat}
    (h : offset + items.length ≤ buffer.length) :
    writeAt buffer offset items =
      buffer.take offset ++ items ++ buffer.drop (offset + items.length) := by
  rw [writeAt, List.take_of_length_le]
  simp only [List.length_append, List.length_take, List.length_drop]
  omega

/-- The items that are read are those of the buffer from the offset on. -/
theorem read_at_get? {buffer : List α} {offset count i : Nat} :
    (readAt buffer offset count)[i]? = if i < count then buffer[offset + i]? else none := by
  rw [readAt, List.getElem?_take, List.getElem?_drop]

/-- A copy that fits replaces the items from the offset on and no others. -/
theorem write_at_get? {buffer items : List α} {offset : Nat}
    (h : offset + items.length ≤ buffer.length) (i : Nat) :
    (writeAt buffer offset items)[i]? =
      if offset ≤ i ∧ i < offset + items.length then items[i - offset]? else buffer[i]? := by
  have htake : (buffer.take offset).length = offset := by
    rw [List.length_take]
    omega
  rw [write_at_eq h, List.append_assoc]
  by_cases hbefore : i < offset
  · rw [List.getElem?_append_left (by rw [htake]; exact hbefore), List.getElem?_take,
      if_pos hbefore, if_neg (by omega)]
  · rw [List.getElem?_append_right (by rw [htake]; omega), htake]
    by_cases hinside : i < offset + items.length
    · rw [List.getElem?_append_left (by omega), if_pos (by omega)]
    · rw [List.getElem?_append_right (by omega), List.getElem?_drop, if_neg (by omega)]
      congr 1
      omega

/-- Reading back what was written. -/
theorem read_at_write_at {buffer items : List α} {offset : Nat}
    (h : offset + items.length ≤ buffer.length) :
    readAt (writeAt buffer offset items) offset items.length = items := by
  apply List.ext_getElem?
  intro i
  rw [read_at_get?, write_at_get? h]
  by_cases hi : i < items.length
  · rw [if_pos hi, if_pos (by omega)]
    congr 1
    omega
  · rw [if_neg hi, List.getElem?_eq_none (by omega)]

/-- A read beside the written range sees the old contents. -/
theorem read_at_write_at_beside {buffer items : List α} {offset start count : Nat}
    (h : offset + items.length ≤ buffer.length)
    (hbeside : start + count ≤ offset ∨ offset + items.length ≤ start) :
    readAt (writeAt buffer offset items) start count = readAt buffer start count := by
  apply List.ext_getElem?
  intro i
  rw [read_at_get?, read_at_get?, write_at_get? h]
  by_cases hi : i < count
  · rw [if_pos hi, if_pos hi, if_neg (by omega)]
  · rw [if_neg hi, if_neg hi]

/-- Two reads side by side are one read. -/
theorem read_at_append (buffer : List α) (offset first second : Nat) :
    readAt buffer offset (first + second) =
      readAt buffer offset first ++ readAt buffer (offset + first) second := by
  rw [readAt, List.take_add, readAt, readAt, List.drop_drop]

/-- Reading at the start takes a prefix. -/
theorem read_at_zero (buffer : List α) (count : Nat) : readAt buffer 0 count = buffer.take count :=
  rfl

end LatentMesh.Lib
