import LatentMesh.AirCore.Semantic

/-!
# The semantic delta codec

`SemanticDelta.decode` inverts `SemanticDelta.encode` up to the canonical order of the updates and
the residuals: see `SemanticDelta.decode_encode`.
-/

namespace LatentMesh.AirCore

open LatentMesh.Lib

/-! ## Sorting by a key -/

section Sorting

variable {α κ : Type} [LinearOrder κ]

/-- The keys of sorted items are the sorted keys. -/
theorem sort_by_key_map (key : α → κ) (items : List α) :
    (items.insertionSort fun left right => key left ≤ key right).map key =
      (items.map key).insertionSort (· ≤ ·) :=
  List.map_insertionSort _ _ key items fun _ _ _ _ => Iff.rfl

/-- Sorting items with distinct keys leaves strictly increasing keys. -/
theorem sort_by_key_strict (key : α → κ) {items : List α} (h : (items.map key).Nodup) :
    ((items.insertionSort fun left right => key left ≤ key right).map key).Pairwise (· < ·) := by
  rw [sort_by_key_map]
  have hnodup : ((items.map key).insertionSort (· ≤ ·)).Nodup :=
    (List.perm_insertionSort _ _).nodup_iff.mpr h
  exact (List.pairwise_insertionSort (· ≤ ·) (items.map key)).imp₂
    (fun _ _ hle hne => lt_of_le_of_ne hle hne) hnodup

/-- Among sorted items, equal ones are adjacent. -/
theorem adjacent_equal_eq_false_iff {κ : Type} [DecidableEq κ] [PartialOrder κ] {items : List κ}
    (h : items.Pairwise (· ≤ ·)) : adjacentEqual items = false ↔ items.Nodup := by
  induction items with
  | nil => simp [adjacentEqual]
  | cons first rest ih =>
      obtain ⟨hfirst, hrest⟩ := List.pairwise_cons.mp h
      cases rest with
      | nil => simp [adjacentEqual]
      | cons second rest =>
          rw [adjacentEqual, Bool.or_eq_false_iff, ih hrest, List.nodup_cons (a := first),
            beq_eq_false_iff_ne]
          refine and_congr_left fun _ => ⟨fun hne hmem => ?_, fun hnot heq => ?_⟩
          · have hle := hfirst second (List.mem_cons_self ..)
            rcases List.mem_cons.mp hmem with heq | hmem
            · exact hne heq
            · have hge := (List.pairwise_cons.mp hrest).1 first hmem
              exact hne (le_antisymm hle hge)
          · exact hnot (by rw [heq]; exact List.mem_cons_self ..)

/-- No two neighbours of a sorted list are equal when no two items are. -/
theorem adjacent_equal_sort_eq_false_iff [DecidableEq κ] (items : List κ) :
    adjacentEqual (items.insertionSort (· ≤ ·)) = false ↔ items.Nodup := by
  rw [adjacent_equal_eq_false_iff (List.pairwise_insertionSort (· ≤ ·) items)]
  exact (List.perm_insertionSort _ _).nodup_iff

end Sorting

/-! ## Values -/

namespace SymbolValue

/-- A value is as long as `encoded_len` says. -/
theorem append_value_length (value : SymbolValue) :
    value.appendValue.length = value.encodedLen := by
  cases value <;> simp [appendValue, encodedLen]

/-- A valid value is within its bound. -/
theorem encoded_len_le {value : SymbolValue} (h : value.validate = .ok ()) :
    value.encodedLen ≤ maxSymbolBytes := by
  cases value with
  | bytes bytes =>
      rw [validate, Lib.guard_eq_ok_iff] at h
      exact not_lt.mp h.1
  | _ => simp [encodedLen, maxSymbolBytes]

/-- No value has the code of a removal. -/
theorem type_code_ne_zero (value : SymbolValue) : value.typeCode ≠ 0 := by
  cases value <;> simp [typeCode]

/-- A valid value is read back from its bytes. -/
theorem decode_append_value {value : SymbolValue} (h : value.validate = .ok ()) :
    decode value.typeCode value.appendValue = .ok value := by
  have hlen := encoded_len_le h
  cases value with
  | bool value => cases value <;> rfl
  | i64 value => simp [decode, typeCode, appendValue]
  | u64 value => simp [decode, typeCode, appendValue]
  | q16_16 value => simp [decode, typeCode, appendValue]
  | bytes value =>
      have hlen : value.length ≤ maxSymbolBytes := hlen
      simp [decode, typeCode, appendValue, hlen]

end SymbolValue

namespace SemanticDelta

/-! ## Well-formed deltas -/

/-- The conditions that `validate` checks. -/
structure Valid (delta : SemanticDelta) : Prop where
  updates : delta.updates.length ≤ maxCriticalFields
  residuals : delta.residuals.length ≤ maxResiduals
  fields : (delta.updates.map SymbolUpdate.fieldId).Nodup
  values : ∀ fieldId value, .set fieldId value ∈ delta.updates → value.validate = .ok ()
  slots : (delta.residuals.map Residual.slot).Nodup
  residualValues : ∀ residual ∈ delta.residuals, residual.values.length ≤ maxResidualValues

/-- The updates that are accepted. -/
theorem validate_updates_eq_ok_iff {updates : List SymbolUpdate} {u : Unit} :
    validateUpdates updates = .ok u ↔
      ∀ fieldId value, .set fieldId value ∈ updates → value.validate = .ok () := by
  induction updates with
  | nil => simp [validateUpdates]
  | cons update rest ih =>
      cases update with
      | set fieldId value =>
          simp only [validateUpdates, Lib.bind_eq_ok_iff, ih, List.mem_cons,
            SymbolUpdate.set.injEq]
          constructor
          · rintro ⟨u, hvalue, hrest⟩ other value' (⟨-, rfl⟩ | hmem)
            · exact hvalue
            · exact hrest other value' hmem
          · intro h
            exact ⟨(), h fieldId value (Or.inl ⟨rfl, rfl⟩), fun other value' hmem =>
              h other value' (Or.inr hmem)⟩
      | delete fieldId => simp [validateUpdates, ih]

/-- The deltas that `validate` accepts. -/
theorem validate_eq_ok_iff {self : SemanticDelta} {u : Unit} :
    self.validate = .ok u ↔ self.Valid := by
  simp only [validate, Lib.guard_eq_ok_iff, Lib.bind_eq_ok_iff, validate_updates_eq_ok_iff,
    not_or, not_lt, Bool.not_eq_true, adjacent_equal_sort_eq_false_iff, not_exists, not_and,
    and_true, exists_const]
  exact ⟨fun ⟨⟨h1, h2⟩, h3, h4, h5, h6⟩ => ⟨h1, h2, h3, h4, h5, h6⟩,
    fun h => ⟨⟨h.updates, h.residuals⟩, h.fields, h.values, h.slots, h.residualValues⟩⟩

/-- The delta in the order in which it is encoded. -/
def canonical (self : SemanticDelta) : SemanticDelta :=
  { self with updates := sortUpdates self.updates, residuals := sortResiduals self.residuals }

/-- Sorting keeps the updates. -/
theorem mem_sort_updates {update : SymbolUpdate} {updates : List SymbolUpdate} :
    update ∈ sortUpdates updates ↔ update ∈ updates :=
  List.mem_insertionSort _

/-- Sorting keeps the residuals. -/
theorem mem_sort_residuals {residual : Residual} {residuals : List Residual} :
    residual ∈ sortResiduals residuals ↔ residual ∈ residuals :=
  List.mem_insertionSort _

/-- The canonical form of a valid delta is valid. -/
theorem Valid.canonical {self : SemanticDelta} (h : self.Valid) : self.canonical.Valid where
  updates := by simpa [SemanticDelta.canonical, sortUpdates] using h.updates
  residuals := by simpa [SemanticDelta.canonical, sortResiduals] using h.residuals
  fields := (sort_by_key_strict SymbolUpdate.fieldId h.fields).imp ne_of_lt
  values fieldId value hmem := h.values fieldId value (mem_sort_updates.mp hmem)
  slots := (sort_by_key_strict Residual.slot h.slots).imp ne_of_lt
  residualValues residual hmem := h.residualValues residual (mem_sort_residuals.mp hmem)

/-! ## Reading -/

/-- `take` reads what stands at the start. -/
theorem take_append {front : List UInt8} (rest : List UInt8) {count : Nat}
    (h : front.length = count) : take count (front ++ rest) = .ok (front, rest) := by
  subst h
  simp [take]

/-- A byte that was written is read back. -/
@[simp] theorem take_u8_cons (value : UInt8) (rest : List UInt8) :
    takeU8 (value :: rest) = .ok (value, rest) := by
  simp [takeU8, take, Except.bind]

/-- Two bytes that were written are read back. -/
@[simp] theorem take_u16_be (value : UInt16) (rest : List UInt8) :
    takeU16 (u16Be value ++ rest) = .ok (value, rest) := by
  rw [takeU16, take_append rest (u16_be_length value)]
  simp [Except.bind]

/-- Four bytes that were written are read back. -/
@[simp] theorem take_u32_be (value : UInt32) (rest : List UInt8) :
    takeU32 (u32Be value ++ rest) = .ok (value, rest) := by
  rw [takeU32, take_append rest (u32_be_length value)]
  simp [Except.bind]

/-- A hash that was written is read back. -/
@[simp] theorem take_array_16_to_list (hash : CriticalHash) (rest : List UInt8) :
    takeArray16 (hash.toList ++ rest) = .ok (hash, rest) := by
  rw [takeArray16, take_append rest hash.length_toList]
  have hget : (Vector.ofFn fun i : Fin 16 => hash.toList.getD i 0) = hash := by
    ext i hi
    simp [List.getD_eq_getElem?_getD]
  simp only [Except.bind, hget]

/-- The updates are read back from their encodings. -/
theorem read_updates_encode {updates : List SymbolUpdate} (previous : Option UInt16)
    (rest : List UInt8) (hsorted : (updates.map SymbolUpdate.fieldId).Pairwise (· < ·))
    (hprevious : ∀ field ∈ previous, ∀ update ∈ updates, field < update.fieldId)
    (hvalues : ∀ fieldId value, .set fieldId value ∈ updates → value.validate = .ok ()) :
    readUpdates updates.length previous (updates.flatMap encodeUpdate ++ rest) =
      .ok (updates, rest) := by
  induction updates generalizing previous with
  | nil => rfl
  | cons update updates ih =>
      rw [List.map_cons, List.pairwise_cons] at hsorted
      have hfresh : ¬ ∃ field ∈ previous, update.fieldId ≤ field := by
        rintro ⟨field, hfield, hle⟩
        exact not_lt.mpr hle (hprevious field hfield update (List.mem_cons_self ..))
      have hrest := ih (some update.fieldId) hsorted.2
        (by
          intro field hfield other hother
          cases hfield
          exact hsorted.1 _ (List.mem_map_of_mem hother))
        fun fieldId value hmem => hvalues fieldId value (List.mem_cons_of_mem _ hmem)
      cases update with
      | delete fieldId =>
          simp only [SymbolUpdate.fieldId] at hfresh hrest
          simp only [List.length_cons, List.flatMap_cons, encodeUpdate, SymbolUpdate.fieldId,
            List.append_assoc, readUpdates, take_u16_be, Except.bind, if_neg hfresh,
            List.cons_append, List.nil_append, take_u8_cons]
          simp [hrest, maxSymbolBytes]
      | set fieldId value =>
          have hvalid := hvalues fieldId value (List.mem_cons_self ..)
          have hlen := SymbolValue.encoded_len_le hvalid
          have hcast : (UInt8.ofNat value.encodedLen).toNat = value.encodedLen :=
            UInt8.toNat_ofNat_of_lt' (Nat.lt_of_le_of_lt hlen (by decide))
          simp only [SymbolUpdate.fieldId] at hfresh hrest
          simp only [List.length_cons, List.flatMap_cons, encodeUpdate, SymbolUpdate.fieldId,
            List.append_assoc, readUpdates, take_u16_be, Except.bind, if_neg hfresh,
            List.cons_append, List.nil_append, take_u8_cons, hcast, if_neg (not_lt.mpr hlen),
            if_neg value.type_code_ne_zero, take_append _ value.append_value_length,
            SymbolValue.decode_append_value hvalid, hrest]

/-- The residuals are read back from their encodings. -/
theorem read_residuals_encode {residuals : List Residual} (previous : Option UInt8)
    (rest : List UInt8) (hsorted : (residuals.map Residual.slot).Pairwise (· < ·))
    (hprevious : ∀ slot ∈ previous, ∀ residual ∈ residuals, slot < residual.slot)
    (hvalues : ∀ residual ∈ residuals, residual.values.length ≤ maxResidualValues) :
    readResiduals residuals.length previous (residuals.flatMap encodeResidual ++ rest) =
      .ok (residuals, rest) := by
  induction residuals generalizing previous with
  | nil => rfl
  | cons residual residuals ih =>
      rw [List.map_cons, List.pairwise_cons] at hsorted
      have hfresh : ¬ ∃ slot ∈ previous, residual.slot ≤ slot := by
        rintro ⟨slot, hslot, hle⟩
        exact not_lt.mpr hle (hprevious slot hslot residual (List.mem_cons_self ..))
      have hrest := ih (some residual.slot) hsorted.2
        (by
          intro slot hslot other hother
          cases hslot
          exact hsorted.1 _ (List.mem_map_of_mem hother))
        fun other hmem => hvalues other (List.mem_cons_of_mem _ hmem)
      have hlen := hvalues residual (List.mem_cons_self ..)
      have hcast : (UInt8.ofNat residual.values.length).toNat = residual.values.length :=
        UInt8.toNat_ofNat_of_lt' (Nat.lt_of_le_of_lt hlen (by decide))
      have hraw : (residual.values.map Int8.toUInt8).length = residual.values.length :=
        List.length_map ..
      have hvalue : (residual.values.map Int8.toUInt8).map UInt8.toInt8 = residual.values := by
        rw [List.map_map]
        exact List.map_id'' (fun value => Int8.toInt8_toUInt8 value) _
      simp only [List.length_cons, List.flatMap_cons, encodeResidual, List.append_assoc,
        readResiduals, List.cons_append, List.nil_append, take_u8_cons, Except.bind,
        if_neg hfresh, hcast, if_neg (not_lt.mpr hlen), take_append _ hraw, hrest, hvalue,
        Int8.toInt8_toUInt8]

/-! ## The round trip -/

/-- A valid update is within its bound. -/
theorem encode_update_length_le {update : SymbolUpdate}
    (h : ∀ fieldId value, update = .set fieldId value → value.validate = .ok ()) :
    (encodeUpdate update).length ≤ 4 + maxSymbolBytes := by
  cases update with
  | delete fieldId => simp [encodeUpdate, maxSymbolBytes]
  | set fieldId value =>
      have hlen := SymbolValue.encoded_len_le (h fieldId value rfl)
      simp [encodeUpdate, SymbolValue.append_value_length]
      omega

/-- Items within a bound join to a list within the sum of the bounds. -/
theorem flat_map_length_le {α : Type} (encode : α → List UInt8) (most : Nat) {items : List α}
    (h : ∀ item ∈ items, (encode item).length ≤ most) :
    (items.flatMap encode).length ≤ items.length * most := by
  induction items with
  | nil => simp
  | cons item items ih =>
      have hitem := h item (List.mem_cons_self ..)
      have hitems := ih fun other hmem => h other (List.mem_cons_of_mem _ hmem)
      simp only [List.flatMap_cons, List.length_append, List.length_cons, Nat.succ_mul]
      omega

/-- The bytes of a delta in canonical order. -/
def wire (self : SemanticDelta) : List UInt8 :=
  deltaMagic ++ [deltaVersion, if self.residuals.isEmpty then 0 else 1] ++
    u32Be self.sourceId ++ u32Be self.epoch ++ u32Be self.messageId ++
    self.baseHash.toList ++ self.resultHash.toList ++
    [UInt8.ofNat self.updates.length, UInt8.ofNat self.residuals.length] ++
    self.updates.flatMap encodeUpdate ++ self.residuals.flatMap encodeResidual

/-- The wire has a fixed part and those of the updates and residuals. -/
theorem wire_length (self : SemanticDelta) :
    self.wire.length = 52 + (self.updates.flatMap encodeUpdate).length +
      (self.residuals.flatMap encodeResidual).length := by
  simp only [wire, deltaMagic, List.length_append, List.length_cons, List.length_nil,
    u32_be_length, Vector.length_toList]

/-- The wire of a valid delta fits into a message. -/
theorem Valid.wire_length_le {self : SemanticDelta} (h : self.Valid) :
    self.wire.length ≤ maxMessageBytes := by
  have hupdates : (self.updates.flatMap encodeUpdate).length ≤ self.updates.length * 36 :=
    flat_map_length_le encodeUpdate 36 fun update hmem =>
      encode_update_length_le fun fieldId value heq => h.values fieldId value (heq ▸ hmem)
  have hresiduals : (self.residuals.flatMap encodeResidual).length ≤ self.residuals.length * 68 :=
    flat_map_length_le encodeResidual 68 fun residual hmem => by
      have hvalues : residual.values.length ≤ 64 := h.residualValues residual hmem
      simp only [encodeResidual, List.length_append, List.length_cons, List.length_nil,
        List.length_map]
      omega
  have hupdateCount : self.updates.length ≤ 64 := h.updates
  have hresidualCount : self.residuals.length ≤ 16 := h.residuals
  have hmax : maxMessageBytes = 7680 := rfl
  rw [wire_length, hmax]
  omega

/-- A delta is encoded in its canonical form when it is accepted and not too long. -/
theorem encode_eq (self : SemanticDelta) : self.encode = self.validate.bind fun _ =>
    if maxMessageBytes < self.canonical.wire.length then .error .limitExceeded
    else .ok self.canonical.wire := rfl

/-- `encode` succeeds on exactly the valid deltas. -/
theorem encode_eq_ok_iff {self : SemanticDelta} {bytes : List UInt8} :
    self.encode = .ok bytes ↔ self.Valid ∧ bytes = self.canonical.wire := by
  simp only [encode_eq, Lib.bind_eq_ok_iff, Lib.guard_eq_ok_iff, validate_eq_ok_iff,
    Except.ok.injEq, exists_const]
  constructor
  · rintro ⟨hvalid, -, rfl⟩
    exact ⟨hvalid, rfl⟩
  · rintro ⟨hvalid, rfl⟩
    exact ⟨hvalid, not_lt.mpr hvalid.canonical.wire_length_le, rfl⟩

/-- The byte behind a front. -/
theorem getD_append_cons (front : List UInt8) (value : UInt8) (rest : List UInt8) {index : Nat}
    (h : index = front.length) : (front ++ value :: rest).getD index 0 = value := by
  subst h
  rw [List.getD_append_right _ _ _ _ (le_refl _), Nat.sub_self, List.getD_cons_zero]

/-- `decode` reads a valid delta in canonical order back from its bytes. -/
theorem decode_wire {self : SemanticDelta} (h : self.Valid)
    (hupdates : (self.updates.map SymbolUpdate.fieldId).Pairwise (· < ·))
    (hresiduals : (self.residuals.map Residual.slot).Pairwise (· < ·)) :
    decode self.wire = .ok self := by
  have hlength := wire_length self
  have hupdateByte : (UInt8.ofNat self.updates.length).toNat = self.updates.length :=
    UInt8.toNat_ofNat_of_lt' (Nat.lt_of_le_of_lt h.updates (by decide))
  have hresidualByte : (UInt8.ofNat self.residuals.length).toNat = self.residuals.length :=
    UInt8.toNat_ofNat_of_lt' (Nat.lt_of_le_of_lt h.residuals (by decide))
  have hupdateCount : (self.wire.getD 50 0).toNat = self.updates.length := by
    rw [wire, List.append_assoc, List.append_assoc, List.cons_append,
      getD_append_cons _ _ _ (by simp [deltaMagic]), hupdateByte]
  have hresidualCount : (self.wire.getD 51 0).toNat = self.residuals.length := by
    rw [wire, List.append_assoc, List.append_assoc, List.cons_append, List.append_cons,
      List.cons_append, getD_append_cons _ _ _ (by simp [deltaMagic]), hresidualByte]
  have hflag : self.wire.getD 5 0 = if self.residuals.isEmpty then 0 else 1 := rfl
  have hmagic : self.wire.take 4 = deltaMagic := rfl
  have hversion : self.wire.getD 4 0 = deltaVersion := rfl
  have hbody : self.wire.drop 6 = u32Be self.sourceId ++ (u32Be self.epoch ++
      (u32Be self.messageId ++ (self.baseHash.toList ++ (self.resultHash.toList ++
        UInt8.ofNat self.updates.length :: UInt8.ofNat self.residuals.length ::
          (self.updates.flatMap encodeUpdate ++
            (self.residuals.flatMap encodeResidual ++ [])))))) := by
    simp [wire, deltaMagic]
  have hvalidate : self.validate = .ok () := validate_eq_ok_iff.mpr h
  have hflags : ¬ decide (self.wire.getD 5 0 &&& 1 ≠ 0) ≠ decide (self.residuals.length ≠ 0) := by
    rw [hflag]
    cases self.residuals <;> simp
  have hreserved : ¬ self.wire.getD 5 0 &&& ~~~ 1 ≠ 0 := by
    rw [hflag]
    split <;> decide
  dsimp only [decode]
  rw [if_neg (by omega), if_neg (not_lt.mpr h.wire_length_le), if_neg (not_not.mpr hmagic),
    if_neg (not_not.mpr hversion), if_neg hreserved, hupdateCount, hresidualCount,
    if_neg (by rw [not_or, not_lt, not_lt]; exact ⟨h.updates, h.residuals⟩), if_neg hflags, hbody]
  simp only [take_u32_be, take_array_16_to_list, take_u8_cons, Except.bind, hupdateByte,
    hresidualByte, ne_eq, not_true, if_false,
    read_updates_encode none _ hupdates (by simp) h.values,
    read_residuals_encode none _ hresiduals (by simp) h.residualValues, List.isEmpty_nil, hvalidate]

/-- Decoding inverts encoding, up to the canonical order. -/
theorem decode_encode {self : SemanticDelta} {bytes : List UInt8} (h : self.encode = .ok bytes) :
    decode bytes = .ok self.canonical := by
  obtain ⟨hvalid, rfl⟩ := encode_eq_ok_iff.mp h
  exact decode_wire hvalid.canonical (sort_by_key_strict SymbolUpdate.fieldId hvalid.fields)
    (sort_by_key_strict Residual.slot hvalid.slots)

end SemanticDelta

end LatentMesh.AirCore
