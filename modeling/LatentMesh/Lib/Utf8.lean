import Mathlib.Data.String.Basic

/-!
# UTF-8

The bytes of a string, and the string of bytes that are one.
-/

namespace LatentMesh.Lib

/-- `str::as_bytes`. -/
def utf8Bytes (text : String) : List UInt8 := text.toByteArray.data.toList

/-- What the loop of `ByteArray.toList` adds to the bytes that it has read. -/
theorem to_list_loop_eq (bytes : ByteArray) (start : Nat) (read : List UInt8) :
    ByteArray.toList.loop bytes start read = read.reverse ++ bytes.data.toList.drop start := by
  fun_induction ByteArray.toList.loop bytes start read with
  | case1 start read hlt ih =>
      have hlist : start < bytes.data.toList.length := hlt
      have hget : bytes.get! start = bytes.data.toList[start] := getElem!_pos bytes.data start hlt
      rw [ih, List.reverse_cons, List.append_assoc, List.singleton_append, hget,
        ← List.drop_eq_getElem_cons hlist]
  | case2 start read hge =>
      have hend : bytes.data.toList.length ≤ start := Nat.not_lt.mp hge
      rw [List.drop_of_length_le hend, List.append_nil]

/-- The UTF-8 bytes of a text as a list. -/
theorem to_utf8_to_list (text : String) : text.toUTF8.toList = utf8Bytes text :=
  (to_list_loop_eq _ 0 []).trans (List.drop_zero ..)

/-- A text has as many bytes as its UTF-8 size. -/
theorem utf8_bytes_length (text : String) : (utf8Bytes text).length = text.utf8ByteSize := rfl

/-- The UTF-8 bytes tell the text. -/
theorem utf8_bytes_injective : Function.Injective utf8Bytes := by
  intro first second h
  refine String.toByteArray_inj.mp (ByteArray.ext ?_)
  exact Array.toList_inj.mp h

/-- `str::from_utf8`. -/
def fromUtf8 (bytes : List UInt8) : Option String := String.fromUTF8? ⟨bytes.toArray⟩

/-- Bytes are read as the string whose bytes they are. -/
theorem from_utf8_eq_some_iff {bytes : List UInt8} {text : String} :
    fromUtf8 bytes = some text ↔ utf8Bytes text = bytes := by
  have hbytes : text.toByteArray = ⟨bytes.toArray⟩ ↔ utf8Bytes text = bytes := by
    rw [ByteArray.ext_iff, ← Array.toList_inj]
    exact Iff.rfl
  rw [← hbytes]
  unfold fromUtf8 String.fromUTF8?
  constructor
  · intro h
    split at h
    · cases h
      rfl
    · cases h
  · intro h
    rw [dif_pos (h ▸ text.isValidUTF8), Option.some.injEq]
    exact String.toByteArray_inj.mp h.symm

end LatentMesh.Lib
