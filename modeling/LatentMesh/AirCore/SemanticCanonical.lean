import LatentMesh.AirCore.SemanticCodec

/-!
# Accepted deltas are canonical

`SemanticDelta.decode` accepts only bytes that `SemanticDelta.encode` emits for the delta it returns
(`SemanticDelta.wire_of_decode`), and the emitted bytes do not depend on the order in which updates
and residuals are listed (`SemanticDelta.encode_perm`).
-/

namespace LatentMesh.AirCore

open LatentMesh.Lib

/-! ## Values -/

/-- A value that is read has the type code and the bytes that were read. -/
theorem SymbolValue.append_value_of_decode {typeCode : UInt8} {raw : List UInt8}
    {value : SymbolValue} (h : SymbolValue.decode typeCode raw = .ok value) :
    value.typeCode = typeCode ∧ value.appendValue = raw ∧ value.validate = .ok () := by
  unfold SymbolValue.decode at h
  split at h
  · rename_i hbool
    obtain ⟨rfl, hlength, hle⟩ := hbool
    obtain ⟨byte, rfl⟩ := List.length_eq_one_iff.mp hlength
    cases h
    have hbyte : byte = 0 ∨ byte = 1 := by
      have hnat : byte.toNat ≤ 1 := hle
      rcases Nat.le_one_iff_eq_zero_or_eq_one.mp hnat with hzero | hone
      · exact Or.inl (UInt8.toNat_inj.mp hzero)
      · exact Or.inr (UInt8.toNat_inj.mp hone)
    rcases hbyte with rfl | rfl <;> exact ⟨rfl, rfl, rfl⟩
  · split at h
    · rename_i hi64
      obtain ⟨rfl, hlength⟩ := hi64
      cases h
      refine ⟨rfl, ?_, rfl⟩
      rw [SymbolValue.appendValue, UInt64.toUInt64_toInt64, u64_be_u64_of_be hlength]
    · split at h
      · rename_i hu64
        obtain ⟨rfl, hlength⟩ := hu64
        cases h
        exact ⟨rfl, u64_be_u64_of_be hlength, rfl⟩
      · split at h
        · rename_i hq16
          obtain ⟨rfl, hlength⟩ := hq16
          cases h
          refine ⟨rfl, ?_, rfl⟩
          rw [SymbolValue.appendValue, UInt32.toUInt32_toInt32, u32_be_u32_of_be hlength]
        · split at h
          · rename_i hbytes
            obtain ⟨rfl, hlength⟩ := hbytes
            cases h
            exact ⟨rfl, rfl, if_neg (not_lt.mpr hlength)⟩
          · cases h

namespace SemanticDelta

/-! ## Reading, backwards -/

/-- What `take` read stood at the start. -/
theorem append_of_take {count : Nat} {bytes value rest : List UInt8}
    (h : take count bytes = .ok (value, rest)) : bytes = value ++ rest ∧ value.length = count := by
  rw [take, Lib.guard_eq_ok_iff, Except.ok.injEq, Prod.mk.injEq] at h
  obtain ⟨hlength, rfl, rfl⟩ := h
  refine ⟨(List.take_append_drop _ _).symm, ?_⟩
  rw [List.length_take]
  omega

/-- The byte that was read stood at the start. -/
theorem cons_of_take_u8 {bytes rest : List UInt8} {value : UInt8}
    (h : takeU8 bytes = .ok (value, rest)) : bytes = value :: rest := by
  rw [takeU8, Lib.bind_eq_ok_iff] at h
  obtain ⟨⟨raw, tail⟩, htake, hvalue⟩ := h
  obtain ⟨rfl, hlength⟩ := append_of_take htake
  obtain ⟨byte, rfl⟩ := List.length_eq_one_iff.mp hlength
  cases hvalue
  rfl

/-- The two bytes that were read stood at the start. -/
theorem append_of_take_u16 {bytes rest : List UInt8} {value : UInt16}
    (h : takeU16 bytes = .ok (value, rest)) : bytes = u16Be value ++ rest := by
  rw [takeU16, Lib.bind_eq_ok_iff] at h
  obtain ⟨⟨raw, tail⟩, htake, hvalue⟩ := h
  obtain ⟨rfl, hlength⟩ := append_of_take htake
  cases hvalue
  rw [u16_be_u16_of_be hlength]

/-- The four bytes that were read stood at the start. -/
theorem append_of_take_u32 {bytes rest : List UInt8} {value : UInt32}
    (h : takeU32 bytes = .ok (value, rest)) : bytes = u32Be value ++ rest := by
  rw [takeU32, Lib.bind_eq_ok_iff] at h
  obtain ⟨⟨raw, tail⟩, htake, hvalue⟩ := h
  obtain ⟨rfl, hlength⟩ := append_of_take htake
  cases hvalue
  rw [u32_be_u32_of_be hlength]

/-- The hash that was read stood at the start. -/
theorem append_of_take_array_16 {bytes rest : List UInt8} {hash : CriticalHash}
    (h : takeArray16 bytes = .ok (hash, rest)) : bytes = hash.toList ++ rest := by
  rw [takeArray16, Lib.bind_eq_ok_iff] at h
  obtain ⟨⟨raw, tail⟩, htake, hvalue⟩ := h
  obtain ⟨rfl, hlength⟩ := append_of_take htake
  obtain ⟨hhash, hrest⟩ := Prod.mk.inj (Except.ok.inj hvalue)
  have hraw : raw = hash.toList := by
    rw [← hhash]
    apply List.ext_getElem
    · rw [hlength, Vector.length_toList]
    · intro i hi _
      simp [List.getD_eq_getElem?_getD, hi]
  rw [hraw, hrest]

/-- An item read after smaller keys and before greater ones. -/
theorem sorted_cons {α κ : Type} [LinearOrder κ] (key : α → κ) {item : α} {items : List α}
    {previous : Option κ} (hsorted : (items.map key).Pairwise (· < ·))
    (hafter : ∀ low ∈ some (key item), ∀ other ∈ items, low < key other)
    (hfresh : ¬ ∃ low ∈ previous, key item ≤ low) :
    ((item :: items).map key).Pairwise (· < ·) ∧
      ∀ low ∈ previous, ∀ other ∈ item :: items, low < key other := by
  refine ⟨?_, fun low hmem other hother => ?_⟩
  · rw [List.map_cons, List.pairwise_cons]
    exact ⟨List.forall_mem_map.mpr (hafter (key item) rfl), hsorted⟩
  · have hlt : low < key item := not_le.mp fun hback => hfresh ⟨low, hmem, hback⟩
    rcases List.mem_cons.mp hother with rfl | hother
    · exact hlt
    · exact lt_trans hlt (hafter (key item) rfl other hother)

/-- Updates that are read are the bytes that were read, in strictly increasing field order. -/
theorem encode_of_read_updates {count : Nat} {previous : Option UInt16} {bytes rest : List UInt8}
    {updates : List SymbolUpdate} (h : readUpdates count previous bytes = .ok (updates, rest)) :
    updates.length = count ∧ bytes = updates.flatMap encodeUpdate ++ rest ∧
      (updates.map SymbolUpdate.fieldId).Pairwise (· < ·) ∧
      ∀ field ∈ previous, ∀ update ∈ updates, field < update.fieldId := by
  induction count generalizing previous bytes rest updates with
  | zero =>
      cases h
      simp
  | succ count ih =>
      rw [readUpdates, Lib.bind_eq_ok_iff] at h
      obtain ⟨⟨fieldId, bytes⟩, hfield, h⟩ := h
      rw [Lib.guard_eq_ok_iff, Lib.bind_eq_ok_iff] at h
      obtain ⟨hfresh, ⟨typeCode, bytes⟩, htype, h⟩ := h
      rw [Lib.bind_eq_ok_iff] at h
      obtain ⟨⟨valueLen, bytes⟩, hlen, h⟩ := h
      rw [Lib.guard_eq_ok_iff] at h
      obtain ⟨hmost, h⟩ := h
      obtain rfl := append_of_take_u16 hfield
      obtain rfl := cons_of_take_u8 htype
      obtain rfl := cons_of_take_u8 hlen
      split at h
      · rename_i hdelete
        rw [Lib.guard_eq_ok_iff, Lib.bind_eq_ok_iff] at h
        obtain ⟨hzero, ⟨others, bytes⟩, hothers, h⟩ := h
        cases h
        obtain ⟨rfl, rfl, hsorted, hafter⟩ := ih hothers
        obtain rfl := hdelete
        obtain rfl := not_not.mp hzero
        exact ⟨rfl, by simp [encodeUpdate, SymbolUpdate.fieldId],
          sorted_cons SymbolUpdate.fieldId hsorted hafter hfresh⟩
      · rw [Lib.bind_eq_ok_iff] at h
        obtain ⟨⟨raw, bytes⟩, hraw, h⟩ := h
        rw [Lib.bind_eq_ok_iff] at h
        obtain ⟨value, hvalue, h⟩ := h
        rw [Lib.bind_eq_ok_iff] at h
        obtain ⟨⟨others, bytes⟩, hothers, h⟩ := h
        cases h
        obtain ⟨rfl, rfl, hsorted, hafter⟩ := ih hothers
        obtain ⟨rfl, hlength⟩ := append_of_take hraw
        obtain ⟨rfl, rfl, -⟩ := SymbolValue.append_value_of_decode hvalue
        have hbyte : UInt8.ofNat value.encodedLen = valueLen := by
          rw [← SymbolValue.append_value_length, hlength, UInt8.ofNat_toNat]
        exact ⟨rfl, by simp [encodeUpdate, SymbolUpdate.fieldId, hbyte],
          sorted_cons SymbolUpdate.fieldId hsorted hafter hfresh⟩

/-- Residuals that are read are the bytes that were read, in strictly increasing slot order. -/
theorem encode_of_read_residuals {count : Nat} {previous : Option UInt8} {bytes rest : List UInt8}
    {residuals : List Residual} (h : readResiduals count previous bytes = .ok (residuals, rest)) :
    residuals.length = count ∧ bytes = residuals.flatMap encodeResidual ++ rest ∧
      (residuals.map Residual.slot).Pairwise (· < ·) ∧
      ∀ slot ∈ previous, ∀ residual ∈ residuals, slot < residual.slot := by
  induction count generalizing previous bytes rest residuals with
  | zero =>
      cases h
      simp
  | succ count ih =>
      rw [readResiduals, Lib.bind_eq_ok_iff] at h
      obtain ⟨⟨slot, bytes⟩, hslot, h⟩ := h
      rw [Lib.guard_eq_ok_iff, Lib.bind_eq_ok_iff] at h
      obtain ⟨hfresh, ⟨importance, bytes⟩, himportance, h⟩ := h
      rw [Lib.bind_eq_ok_iff] at h
      obtain ⟨⟨scaleExp, bytes⟩, hscale, h⟩ := h
      rw [Lib.bind_eq_ok_iff] at h
      obtain ⟨⟨valueLen, bytes⟩, hlen, h⟩ := h
      rw [Lib.guard_eq_ok_iff, Lib.bind_eq_ok_iff] at h
      obtain ⟨hmost, ⟨raw, bytes⟩, hraw, h⟩ := h
      rw [Lib.bind_eq_ok_iff] at h
      obtain ⟨⟨others, bytes⟩, hothers, h⟩ := h
      cases h
      obtain rfl := cons_of_take_u8 hslot
      obtain rfl := cons_of_take_u8 himportance
      obtain rfl := cons_of_take_u8 hscale
      obtain rfl := cons_of_take_u8 hlen
      obtain ⟨rfl, hlength⟩ := append_of_take hraw
      obtain ⟨rfl, rfl, hsorted, hafter⟩ := ih hothers
      have hbytes : (raw.map UInt8.toInt8).map Int8.toUInt8 = raw := by
        rw [List.map_map]
        exact List.map_id'' (fun byte => UInt8.toUInt8_toInt8 byte) _
      have hcount : UInt8.ofNat raw.length = valueLen := by
        rw [hlength, UInt8.ofNat_toNat]
      exact ⟨rfl, by simp [encodeResidual, hcount, hbytes],
        sorted_cons Residual.slot hsorted hafter hfresh⟩

/-! ## Whole deltas -/

/-- A flag byte without other bits is zero or one. -/
theorem flag_byte_cases : ∀ byte : UInt8, byte &&& ~~~ 1 = 0 → byte = 0 ∨ byte = 1 := by
  rw [byte_forall_iff]
  decide +kernel

/-- The bytes that `decode` looks up before it reads the fields. -/
theorem head_eq {input : List UInt8} {flag : UInt8} (hlength : 6 ≤ input.length)
    (hmagic : input.take 4 = deltaMagic) (hversion : input.getD 4 0 = deltaVersion)
    (hflag : input.getD 5 0 = flag) : input.take 6 = deltaMagic ++ [deltaVersion, flag] := by
  match input, hlength with
  | b0 :: b1 :: b2 :: b3 :: b4 :: b5 :: rest, _ =>
      have hmagic : [b0, b1, b2, b3] = deltaMagic := hmagic
      obtain rfl : b4 = deltaVersion := hversion
      obtain rfl : b5 = flag := hflag
      rw [← hmagic]
      rfl

/-- `decode` accepts only the bytes of the delta that it returns, which is valid and in canonical
order. -/
theorem wire_of_decode {input : List UInt8} {delta : SemanticDelta}
    (h : decode input = .ok delta) :
    delta.Valid ∧ (delta.updates.map SymbolUpdate.fieldId).Pairwise (· < ·) ∧
      (delta.residuals.map Residual.slot).Pairwise (· < ·) ∧ input = delta.wire := by
  dsimp only [decode] at h
  rw [Lib.guard_eq_ok_iff, Lib.guard_eq_ok_iff, Lib.guard_eq_ok_iff,
    Lib.guard_eq_ok_iff, Lib.guard_eq_ok_iff, Lib.guard_eq_ok_iff,
    Lib.guard_eq_ok_iff, Lib.bind_eq_ok_iff] at h
  obtain ⟨hlength, -, hmagic, hversion, hreserved, hcounts, hflag, ⟨sourceId, bytes1⟩, hsource,
    h⟩ := h
  rw [Lib.bind_eq_ok_iff] at h
  obtain ⟨⟨epoch, bytes2⟩, hepoch, h⟩ := h
  rw [Lib.bind_eq_ok_iff] at h
  obtain ⟨⟨messageId, bytes3⟩, hmessage, h⟩ := h
  rw [Lib.bind_eq_ok_iff] at h
  obtain ⟨⟨baseHash, bytes4⟩, hbase, h⟩ := h
  rw [Lib.bind_eq_ok_iff] at h
  obtain ⟨⟨resultHash, bytes5⟩, hresult, h⟩ := h
  rw [Lib.bind_eq_ok_iff] at h
  obtain ⟨⟨updateByte, bytes6⟩, hupdateByte, h⟩ := h
  rw [Lib.guard_eq_ok_iff, Lib.bind_eq_ok_iff] at h
  obtain ⟨hupdateCount, ⟨residualByte, bytes7⟩, hresidualByte, h⟩ := h
  rw [Lib.guard_eq_ok_iff, Lib.bind_eq_ok_iff] at h
  obtain ⟨hresidualCount, ⟨updates, bytes8⟩, hupdates, h⟩ := h
  rw [Lib.bind_eq_ok_iff] at h
  obtain ⟨⟨residuals, bytes9⟩, hresiduals, h⟩ := h
  rw [Lib.guard_eq_ok_iff, Lib.bind_eq_ok_iff] at h
  obtain ⟨hempty, u, hvalid, h⟩ := h
  cases h
  obtain rfl : bytes9 = [] := List.isEmpty_iff.mp (not_not.mp hempty)
  have hvalid := validate_eq_ok_iff.mp hvalid
  obtain rfl := append_of_take_u32 hepoch
  obtain rfl := append_of_take_u32 hmessage
  obtain rfl := append_of_take_array_16 hbase
  obtain rfl := append_of_take_array_16 hresult
  obtain rfl := cons_of_take_u8 hupdateByte
  obtain rfl := cons_of_take_u8 hresidualByte
  obtain ⟨hupdateLength, rfl, hupdatesSorted, -⟩ := encode_of_read_updates hupdates
  obtain ⟨hresidualLength, rfl, hresidualsSorted, -⟩ := encode_of_read_residuals hresiduals
  have hbody := append_of_take_u32 hsource
  have hupdateCast : UInt8.ofNat updates.length = updateByte := by
    rw [hupdateLength, ← not_not.mp hupdateCount, UInt8.ofNat_toNat]
  have hresidualCast : UInt8.ofNat residuals.length = residualByte := by
    rw [hresidualLength, ← not_not.mp hresidualCount, UInt8.ofNat_toNat]
  refine ⟨hvalid, hupdatesSorted, hresidualsSorted, ?_⟩
  -- the six bytes before the fixed fields
  have hhead : input.take 6 = deltaMagic ++
      [deltaVersion, if residuals.isEmpty then 0 else 1] := by
    refine head_eq (by omega) (not_not.mp hmagic) (not_not.mp hversion) ?_
    rw [← hresidualLength] at hflag
    have hbits := not_not.mp hflag
    rcases flag_byte_cases _ (not_not.mp hreserved) with hbyte | hbyte
    · rw [hbyte] at hbits ⊢
      cases residuals with
      | nil => rfl
      | cons => simp at hbits
    · rw [hbyte] at hbits ⊢
      cases residuals with
      | nil => simp at hbits
      | cons => rfl
  rw [← List.take_append_drop 6 input, hhead, hbody, wire]
  simp only [hupdateCast, hresidualCast, List.append_assoc, List.append_nil, List.cons_append,
    List.nil_append]

/-- A delta in canonical order encodes to its own bytes. -/
theorem canonical_eq {self : SemanticDelta}
    (hupdates : (self.updates.map SymbolUpdate.fieldId).Pairwise (· < ·))
    (hresiduals : (self.residuals.map Residual.slot).Pairwise (· < ·)) :
    self.canonical = self := by
  have hupdates' : sortUpdates self.updates = self.updates :=
    List.Pairwise.insertionSort_eq ((List.pairwise_map.mp hupdates).imp le_of_lt)
  have hresiduals' : sortResiduals self.residuals = self.residuals :=
    List.Pairwise.insertionSort_eq ((List.pairwise_map.mp hresiduals).imp le_of_lt)
  rw [canonical, hupdates', hresiduals']

/-- What `decode` accepts, `encode` emits. -/
theorem encode_of_decode {input : List UInt8} {delta : SemanticDelta}
    (h : decode input = .ok delta) : delta.encode = .ok input := by
  obtain ⟨hvalid, hupdates, hresiduals, rfl⟩ := wire_of_decode h
  exact encode_eq_ok_iff.mpr ⟨hvalid, by rw [canonical_eq hupdates hresiduals]⟩

/-! ## Listing order -/

/-- The same delta with its updates and residuals listed in another order. -/
structure Relisted (delta other : SemanticDelta) : Prop where
  sourceId : delta.sourceId = other.sourceId
  epoch : delta.epoch = other.epoch
  messageId : delta.messageId = other.messageId
  baseHash : delta.baseHash = other.baseHash
  resultHash : delta.resultHash = other.resultHash
  updates : delta.updates.Perm other.updates
  residuals : delta.residuals.Perm other.residuals

/-- Sorting forgets the listing order of items with distinct keys. -/
theorem sort_by_key_perm {α κ : Type} [LinearOrder κ] (key : α → κ) {items others : List α}
    (hperm : items.Perm others) (h : (items.map key).Nodup) :
    (items.insertionSort fun left right => key left ≤ key right) =
      others.insertionSort fun left right => key left ≤ key right := by
  have hsorted := List.pairwise_map.mp (sort_by_key_strict key h)
  have hsorted' := List.pairwise_map.mp (sort_by_key_strict key ((hperm.map key).nodup_iff.mp h))
  refine List.Perm.eq_of_pairwise (fun left right _ _ hlt hgt => absurd hgt (lt_asymm hlt))
    hsorted hsorted' ?_
  exact (List.perm_insertionSort _ _).trans (hperm.trans (List.perm_insertionSort _ _).symm)

/-- Sorting forgets the order. -/
theorem sort_perm {κ : Type} [LinearOrder κ] {keys others : List κ} (h : keys.Perm others) :
    keys.insertionSort (· ≤ ·) = others.insertionSort (· ≤ ·) := by
  have hsorted := List.pairwise_insertionSort (· ≤ ·) keys
  have hsorted' := List.pairwise_insertionSort (· ≤ ·) others
  refine List.Perm.eq_of_pairwise (fun _ _ _ _ hle hge => le_antisymm hle hge) hsorted hsorted' ?_
  exact (List.perm_insertionSort _ _).trans (h.trans (List.perm_insertionSort _ _).symm)

/-- Every value fails with the same error, so it does not matter which one fails first. -/
theorem validate_updates_eq (updates : List SymbolUpdate) :
    validateUpdates updates = .ok () ∨ validateUpdates updates = .error .limitExceeded := by
  induction updates with
  | nil => exact Or.inl rfl
  | cons update rest ih =>
      cases update with
      | delete fieldId => exact ih
      | set fieldId value =>
          rw [validateUpdates]
          cases value with
          | bytes bytes =>
              rw [SymbolValue.validate]
              split
              · exact Or.inr rfl
              · exact ih
          | _ => exact ih

/-- The check of the updates does not depend on their order. -/
theorem validate_updates_perm {updates others : List SymbolUpdate} (h : updates.Perm others) :
    validateUpdates updates = validateUpdates others := by
  have hiff : validateUpdates updates = .ok () ↔ validateUpdates others = .ok () := by
    simp only [validate_updates_eq_ok_iff, h.mem_iff]
  rcases validate_updates_eq updates with hok | herror
  · rw [hok, hiff.mp hok]
  · rcases validate_updates_eq others with hok | herror'
    · rw [hok, hiff.mpr hok]
    · rw [herror, herror']

variable {delta other : SemanticDelta}

/-- The check of a delta does not depend on the order of its lists. -/
theorem Relisted.validate_eq (h : Relisted delta other) : delta.validate = other.validate := by
  have hslots := sort_perm (h.residuals.map Residual.slot)
  have hany : (∃ residual ∈ delta.residuals, maxResidualValues < residual.values.length) ↔
      ∃ residual ∈ other.residuals, maxResidualValues < residual.values.length := by
    simp only [h.residuals.mem_iff]
  rw [validate, validate, h.updates.length_eq, h.residuals.length_eq,
    sort_perm (h.updates.map SymbolUpdate.fieldId), validate_updates_perm h.updates, hslots]
  simp only [hany]

/-- The canonical form does not depend on the order of the lists. -/
theorem Relisted.canonical_eq (h : Relisted delta other) (hvalid : delta.Valid) :
    delta.canonical = other.canonical := by
  have hupdates : sortUpdates delta.updates = sortUpdates other.updates :=
    sort_by_key_perm SymbolUpdate.fieldId h.updates hvalid.fields
  have hresiduals : sortResiduals delta.residuals = sortResiduals other.residuals :=
    sort_by_key_perm Residual.slot h.residuals hvalid.slots
  rw [canonical, canonical, hupdates, hresiduals, h.sourceId, h.epoch, h.messageId, h.baseHash,
    h.resultHash]

/-- The listing order does not change what `encode` returns. -/
theorem Relisted.encode_eq (h : Relisted delta other) : delta.encode = other.encode := by
  rw [SemanticDelta.encode_eq, SemanticDelta.encode_eq, ← h.validate_eq]
  cases hvalidate : delta.validate with
  | error error => dsimp only [Except.bind]
  | ok u => rw [h.canonical_eq (validate_eq_ok_iff.mp hvalidate)]

/-- The delta codec is canonical: a delta that encodes is read back with its updates and residuals
sorted, the listing order does not matter, and only the bytes that `encode` emits are accepted. -/
theorem codec_canonical :
    (∀ (delta : SemanticDelta) bytes, delta.encode = .ok bytes → decode bytes = .ok
      { delta with updates := sortUpdates delta.updates
                   residuals := sortResiduals delta.residuals }) ∧
    (∀ delta other : SemanticDelta, Relisted delta other → delta.encode = other.encode) ∧
    ∀ bytes delta, decode bytes = .ok delta → delta.encode = .ok bytes :=
  ⟨fun _ _ h => decode_encode h, fun _ _ h => h.encode_eq, fun _ _ h => encode_of_decode h⟩

/-- A delta that lists two deletions in a given order. -/
def deletions (first second : UInt16) : SemanticDelta :=
  { sourceId := 1, epoch := 2, messageId := 3, baseHash := Vector.replicate 16 0
    resultHash := Vector.replicate 16 1, updates := [.delete first, .delete second]
    residuals := [] }

/-- Two deletions are encoded alike in either order. -/
theorem codec_canonical_deletions :
    decode (deletions 1 2).wire = .ok (deletions 1 2) ∧
      (deletions 2 1).encode = (deletions 1 2).encode ∧
      (deletions 1 2).encode = .ok (deletions 1 2).wire :=
  have hvalid : (deletions 1 2).Valid :=
    validate_eq_ok_iff.mp (show (deletions 1 2).validate = .ok () by decide)
  have hencode : (deletions 1 2).encode = .ok (deletions 1 2).wire :=
    encode_eq_ok_iff.mpr ⟨hvalid, rfl⟩
  have hdecode := codec_canonical.1 _ _ hencode
  ⟨hdecode, codec_canonical.2.1 _ _
    ⟨rfl, rfl, rfl, rfl, rfl, List.Perm.swap _ _ _, List.Perm.refl _⟩,
    codec_canonical.2.2 _ _ hdecode⟩

end SemanticDelta

end LatentMesh.AirCore
