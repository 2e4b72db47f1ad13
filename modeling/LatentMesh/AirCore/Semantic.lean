import Mathlib.Data.List.Sort
import LatentMesh.AirCore.Wire
import LatentMesh.Lib.SortedMap

/-!
# Critical state and semantic deltas

The symbolic state of `semantic.rs`, the delta between two states, its canonical encoding and its
replay. A `BTreeMap` is a `SortedMap`. SHA-256 comes from another crate and is the parameter
`sha256`.
-/

namespace LatentMesh.AirCore

open LatentMesh.Lib

scoped instance instLinearOrderUInt8 : LinearOrder UInt8 where
  le_refl := UInt8.le_refl
  le_trans _ _ _ := UInt8.le_trans
  le_antisymm _ _ := UInt8.le_antisymm
  le_total := UInt8.le_total
  lt_iff_le_not_ge _ _ := by
    rw [UInt8.lt_iff_toNat_lt, UInt8.le_iff_toNat_le, UInt8.le_iff_toNat_le]
    omega
  toDecidableLE := inferInstance
  toDecidableEq := inferInstance
  toDecidableLT := inferInstance

scoped instance instLinearOrderUInt16 : LinearOrder UInt16 where
  le_refl := UInt16.le_refl
  le_trans _ _ _ := UInt16.le_trans
  le_antisymm _ _ := UInt16.le_antisymm
  le_total := UInt16.le_total
  lt_iff_le_not_ge _ _ := by
    rw [UInt16.lt_iff_toNat_lt, UInt16.le_iff_toNat_le, UInt16.le_iff_toNat_le]
    omega
  toDecidableLE := inferInstance
  toDecidableEq := inferInstance
  toDecidableLT := inferInstance

/-- `CRITICAL_HASH_BYTES`. -/
def criticalHashBytes : Nat := 16

/-- `MAX_CRITICAL_FIELDS`. -/
def maxCriticalFields : Nat := 64

/-- `MAX_SYMBOL_BYTES`. -/
def maxSymbolBytes : Nat := 32

/-- `MAX_RESIDUALS`. -/
def maxResiduals : Nat := 16

/-- `MAX_RESIDUAL_VALUES`. -/
def maxResidualValues : Nat := 64

/-- `LMAD`. -/
def deltaMagic : List UInt8 := [0x4c, 0x4d, 0x41, 0x44]

/-- `DELTA_VERSION`. -/
def deltaVersion : UInt8 := 1

/-! ## Symbolic values -/

/-- Deterministic symbolic values. -/
inductive SymbolValue where
  | bool (value : Bool)
  | i64 (value : Int64)
  | u64 (value : UInt64)
  /-- Signed Q16.16 fixed-point value. -/
  | q16_16 (value : Int32)
  | bytes (value : List UInt8)
  deriving DecidableEq

namespace SymbolValue

/-- `SymbolValue::type_code`. -/
def typeCode : SymbolValue → UInt8
  | .bool _ => 1
  | .i64 _ => 2
  | .u64 _ => 3
  | .q16_16 _ => 4
  | .bytes _ => 5

/-- `SymbolValue::encoded_len`. -/
def encodedLen : SymbolValue → Nat
  | .bool _ => 1
  | .i64 _ | .u64 _ => 8
  | .q16_16 _ => 4
  | .bytes value => value.length

/-- `SymbolValue::validate`. -/
def validate : SymbolValue → Result Unit
  | .bytes value => if maxSymbolBytes < value.length then .error .limitExceeded else .ok ()
  | _ => .ok ()

/-- The bytes that `append_value` appends. -/
def appendValue : SymbolValue → List UInt8
  | .bool value => [if value then 1 else 0]
  | .i64 value => u64Be value.toUInt64
  | .u64 value => u64Be value
  | .q16_16 value => u32Be value.toUInt32
  | .bytes value => value

/-- `SymbolValue::decode`. -/
def decode (typeCode : UInt8) (value : List UInt8) : Result SymbolValue :=
  if typeCode = 1 ∧ value.length = 1 ∧ value.getD 0 0 ≤ 1 then .ok (.bool (value.getD 0 0 ≠ 0))
  else if typeCode = 2 ∧ value.length = 8 then .ok (.i64 (u64OfBe value).toInt64)
  else if typeCode = 3 ∧ value.length = 8 then .ok (.u64 (u64OfBe value))
  else if typeCode = 4 ∧ value.length = 4 then .ok (.q16_16 (u32OfBe value).toInt32)
  else if typeCode = 5 ∧ value.length ≤ maxSymbolBytes then .ok (.bytes value)
  else .error .invalidSemanticValue

end SymbolValue

/-! ## Critical state -/

/-- Canonically ordered critical state. The map is private in the source and `set` and `remove` are
its only writers, so it has at most 64 fields and every value is valid. -/
structure CriticalState where
  fields : SortedMap UInt16 SymbolValue
  bounded : fields.size ≤ maxCriticalFields
  valid : ∀ entry ∈ fields.entries, entry.2.validate = .ok ()

/-- A truncated SHA-256 digest. -/
abbrev CriticalHash := Vector UInt8 16

namespace CriticalState

/-- `CriticalState::new`. -/
def new : CriticalState where
  fields := .empty
  bounded := Nat.zero_le _
  valid _ h := by cases h

/-- `CriticalState::get`. -/
def get (self : CriticalState) (fieldId : UInt16) : Option SymbolValue :=
  self.fields.find fieldId

/-- An insertion that is not refused keeps the number of fields within its bound. -/
theorem insert_bounded {self : CriticalState} {fieldId : UInt16} (value : SymbolValue)
    (h : ¬ (self.get fieldId = none ∧ self.fields.size = maxCriticalFields)) :
    (self.fields.insert fieldId value).size ≤ maxCriticalFields := by
  have hbounded := self.bounded
  cases hfind : self.fields.find fieldId with
  | none =>
      rw [SortedMap.size_insert_of_none value hfind]
      have hroom : self.fields.size ≠ maxCriticalFields := fun hfull => h ⟨hfind, hfull⟩
      omega
  | some found => rwa [SortedMap.size_insert_of_some value hfind]

/-- A valid value keeps all values valid. -/
theorem insert_valid {self : CriticalState} {fieldId : UInt16} {value : SymbolValue}
    (h : value.validate = .ok ()) :
    ∀ entry ∈ (self.fields.insert fieldId value).entries, entry.2.validate = .ok () := by
  intro entry hentry
  rcases SortedMap.mem_insert_entry hentry with rfl | hold
  · exact h
  · exact self.valid entry hold

/-- `CriticalState::set`: the changed state. -/
def set (self : CriticalState) (fieldId : UInt16) (value : SymbolValue) : Result CriticalState :=
  match hvalid : value.validate with
  | .error error => .error error
  | .ok () =>
      if hfull : self.get fieldId = none ∧ self.fields.size = maxCriticalFields then
        .error .limitExceeded
      else .ok ⟨self.fields.insert fieldId value, insert_bounded value hfull, insert_valid hvalid⟩

/-- `CriticalState::remove`: the changed state. -/
def remove (self : CriticalState) (fieldId : UInt16) : CriticalState where
  fields := self.fields.erase fieldId
  bounded := le_trans (SortedMap.size_erase_le _ _) self.bounded
  valid entry hentry := self.valid entry (List.mem_of_mem_filter hentry)

/-- `LatentMesh-Critical-State-v1`. -/
def hashDomain : List UInt8 :=
  [0x4c, 0x61, 0x74, 0x65, 0x6e, 0x74, 0x4d, 0x65, 0x73, 0x68, 0x2d, 0x43, 0x72, 0x69, 0x74, 0x69,
    0x63, 0x61, 0x6c, 0x2d, 0x53, 0x74, 0x61, 0x74, 0x65, 0x2d, 0x76, 0x31]

/-- The bytes that `critical_hash` feeds to the hasher. -/
def hashInput (self : CriticalState) : List UInt8 :=
  hashDomain ++ u16Be (UInt16.ofNat self.fields.size) ++
    self.fields.entries.flatMap fun entry =>
      u16Be entry.1 ++ [entry.2.typeCode, UInt8.ofNat entry.2.encodedLen] ++ entry.2.appendValue

/-- SHA-256 truncated to 128 bits over the canonical representation. -/
def criticalHash (sha256 : List UInt8 → Vector UInt8 32) (self : CriticalState) : CriticalHash :=
  (sha256 self.hashInput).take criticalHashBytes

end CriticalState

/-! ## Deltas -/

/-- A field that is set or removed. -/
inductive SymbolUpdate where
  | set (fieldId : UInt16) (value : SymbolValue)
  | delete (fieldId : UInt16)
  deriving DecidableEq

/-- The field that an update is about. -/
def SymbolUpdate.fieldId : SymbolUpdate → UInt16
  | .set fieldId _ => fieldId
  | .delete fieldId => fieldId

/-- Quantized learned residual. -/
structure Residual where
  slot : UInt8
  importance : UInt8
  /-- Residual values represent `q * 2^scale_exp`. -/
  scaleExp : Int8
  values : List Int8
  deriving DecidableEq

/-- The updates from one critical state to another, with their hashes, and residuals. -/
structure SemanticDelta where
  sourceId : UInt32
  epoch : UInt32
  messageId : UInt32
  baseHash : CriticalHash
  resultHash : CriticalHash
  updates : List SymbolUpdate
  residuals : List Residual
  deriving DecidableEq

/-- `windows(2).any(|pair| pair[0] == pair[1])`. -/
def adjacentEqual {α : Type} [DecidableEq α] : List α → Bool
  | first :: second :: rest => first == second || adjacentEqual (second :: rest)
  | _ => false

namespace SemanticDelta

/-- `updates.sort_by_key(SymbolUpdate::field_id)`, a stable sort. -/
def sortUpdates (updates : List SymbolUpdate) : List SymbolUpdate :=
  updates.insertionSort fun left right => left.fieldId ≤ right.fieldId

/-- `residuals.sort_by_key(|item| item.slot)`, a stable sort. -/
def sortResiduals (residuals : List Residual) : List Residual :=
  residuals.insertionSort fun left right => left.slot ≤ right.slot

/-- The loop of `validate` over the values of the updates. -/
def validateUpdates : List SymbolUpdate → Result Unit
  | [] => .ok ()
  | .set _ value :: rest => value.validate.bind fun _ => validateUpdates rest
  | .delete _ :: rest => validateUpdates rest

/-- `SemanticDelta::validate`. -/
def validate (self : SemanticDelta) : Result Unit :=
  if maxCriticalFields < self.updates.length ∨ maxResiduals < self.residuals.length then
    .error .limitExceeded
  else if adjacentEqual ((self.updates.map SymbolUpdate.fieldId).insertionSort (· ≤ ·)) then
    .error .invalidSemanticValue
  else (validateUpdates self.updates).bind fun _ =>
    if adjacentEqual ((self.residuals.map Residual.slot).insertionSort (· ≤ ·)) then
      .error .invalidSemanticValue
    else if ∃ residual ∈ self.residuals, maxResidualValues < residual.values.length then
      .error .limitExceeded
    else .ok ()

/-- The updates that `between` pushes while it walks over `before`. -/
def updatesOfBefore (before after : CriticalState) : List SymbolUpdate :=
  before.fields.entries.filterMap fun entry =>
    match after.get entry.1 with
    | none => some (.delete entry.1)
    | some value => if value ≠ entry.2 then some (.set entry.1 value) else none

/-- The updates that `between` pushes while it walks over `after`. -/
def updatesOfAfter (before after : CriticalState) : List SymbolUpdate :=
  after.fields.entries.filterMap fun entry =>
    if before.get entry.1 = none then some (.set entry.1 entry.2) else none

/-- `SemanticDelta::between`. -/
def between (sha256 : List UInt8 → Vector UInt8 32) (sourceId epoch messageId : UInt32)
    (before after : CriticalState) (residuals : List Residual) : Result SemanticDelta :=
  let delta : SemanticDelta :=
    { sourceId, epoch, messageId
      baseHash := before.criticalHash sha256
      resultHash := after.criticalHash sha256
      updates := sortUpdates (updatesOfBefore before after ++ updatesOfAfter before after)
      residuals }
  delta.validate.bind fun _ => .ok delta

/-- The loop of `apply`. -/
def replay : CriticalState → List SymbolUpdate → Result CriticalState
  | state, [] => .ok state
  | state, .set fieldId value :: rest =>
      (state.set fieldId value).bind fun state => replay state rest
  | state, .delete fieldId :: rest => replay (state.remove fieldId) rest

/-- Apply the symbolic operations and verify both hashes. -/
def apply (sha256 : List UInt8 → Vector UInt8 32) (self : SemanticDelta) (base : CriticalState) :
    Result CriticalState :=
  self.validate.bind fun _ =>
    if base.criticalHash sha256 ≠ self.baseHash then .error .baseStateMismatch
    else (replay base self.updates).bind fun result =>
      if result.criticalHash sha256 ≠ self.resultHash then .error .resultStateMismatch
      else .ok result

/-! ## Encoding -/

/-- The bytes of an update. -/
def encodeUpdate (update : SymbolUpdate) : List UInt8 :=
  u16Be update.fieldId ++
    match update with
    | .delete _ => [0, 0]
    | .set _ value => [value.typeCode, UInt8.ofNat value.encodedLen] ++ value.appendValue

/-- The bytes of a residual. -/
def encodeResidual (residual : Residual) : List UInt8 :=
  [residual.slot, residual.importance, residual.scaleExp.toUInt8,
    UInt8.ofNat residual.values.length] ++ residual.values.map Int8.toUInt8

/-- Encode with canonical update and residual ordering. -/
def encode (self : SemanticDelta) : Result (List UInt8) :=
  self.validate.bind fun _ =>
    let updates := sortUpdates self.updates
    let residuals := sortResiduals self.residuals
    let out := deltaMagic ++ [deltaVersion, if residuals.isEmpty then 0 else 1] ++
      u32Be self.sourceId ++ u32Be self.epoch ++ u32Be self.messageId ++
      self.baseHash.toList ++ self.resultHash.toList ++
      [UInt8.ofNat updates.length, UInt8.ofNat residuals.length] ++
      updates.flatMap encodeUpdate ++ residuals.flatMap encodeResidual
    if maxMessageBytes < out.length then .error .limitExceeded else .ok out

/-- `Reader::take`: the bytes read and the bytes left. -/
def take (count : Nat) (bytes : List UInt8) : Result (List UInt8 × List UInt8) :=
  if bytes.length < count then .error .truncated else .ok (bytes.take count, bytes.drop count)

/-- `Reader::u8`. -/
def takeU8 (bytes : List UInt8) : Result (UInt8 × List UInt8) :=
  (take 1 bytes).bind fun (value, rest) => .ok (value.getD 0 0, rest)

/-- `Reader::u16`. -/
def takeU16 (bytes : List UInt8) : Result (UInt16 × List UInt8) :=
  (take 2 bytes).bind fun (value, rest) => .ok (u16OfBe value, rest)

/-- `Reader::u32`. -/
def takeU32 (bytes : List UInt8) : Result (UInt32 × List UInt8) :=
  (take 4 bytes).bind fun (value, rest) => .ok (u32OfBe value, rest)

/-- `Reader::array_16`. -/
def takeArray16 (bytes : List UInt8) : Result (CriticalHash × List UInt8) :=
  (take 16 bytes).bind fun (value, rest) => .ok (Vector.ofFn fun i => value.getD i 0, rest)

/-- The loop of `decode` over the updates. -/
def readUpdates : Nat → Option UInt16 → List UInt8 → Result (List SymbolUpdate × List UInt8)
  | 0, _, bytes => .ok ([], bytes)
  | count + 1, previousField, bytes =>
      (takeU16 bytes).bind fun (fieldId, bytes) =>
      if ∃ previous ∈ previousField, fieldId ≤ previous then .error .invalidSemanticValue
      else
        (takeU8 bytes).bind fun (typeCode, bytes) =>
        (takeU8 bytes).bind fun (valueLen, bytes) =>
        if maxSymbolBytes < valueLen.toNat then .error .limitExceeded
        else if typeCode = 0 then
          if valueLen ≠ 0 then .error .invalidSemanticValue
          else
            (readUpdates count (some fieldId) bytes).bind fun (updates, bytes) =>
            .ok (.delete fieldId :: updates, bytes)
        else
          (take valueLen.toNat bytes).bind fun (raw, bytes) =>
          (SymbolValue.decode typeCode raw).bind fun value =>
          (readUpdates count (some fieldId) bytes).bind fun (updates, bytes) =>
          .ok (.set fieldId value :: updates, bytes)

/-- The loop of `decode` over the residuals. -/
def readResiduals : Nat → Option UInt8 → List UInt8 → Result (List Residual × List UInt8)
  | 0, _, bytes => .ok ([], bytes)
  | count + 1, previousSlot, bytes =>
      (takeU8 bytes).bind fun (slot, bytes) =>
      if ∃ previous ∈ previousSlot, slot ≤ previous then .error .invalidSemanticValue
      else
        (takeU8 bytes).bind fun (importance, bytes) =>
        (takeU8 bytes).bind fun (scaleExp, bytes) =>
        (takeU8 bytes).bind fun (valueLen, bytes) =>
        if maxResidualValues < valueLen.toNat then .error .limitExceeded
        else
          (take valueLen.toNat bytes).bind fun (raw, bytes) =>
          (readResiduals count (some slot) bytes).bind fun (residuals, bytes) =>
          .ok ({ slot, importance, scaleExp := scaleExp.toInt8, values := raw.map UInt8.toInt8 } ::
            residuals, bytes)

/-- `SemanticDelta::decode`. -/
def decode (input : List UInt8) : Result SemanticDelta :=
  let fixedLen := 52
  if input.length < fixedLen then .error .truncated
  else if maxMessageBytes < input.length then .error .limitExceeded
  else if input.take 4 ≠ deltaMagic then .error .invalidMarker
  else if input.getD 4 0 ≠ deltaVersion then .error .unsupportedVersion
  else if input.getD 5 0 &&& ~~~ 1 ≠ 0 then .error .invalidFlags
  else
    let updateCount := (input.getD 50 0).toNat
    let residualCount := (input.getD 51 0).toNat
    if maxCriticalFields < updateCount ∨ maxResiduals < residualCount then .error .limitExceeded
    else if decide (input.getD 5 0 &&& 1 ≠ 0) ≠ decide (residualCount ≠ 0) then
      .error .invalidFlags
    else
      (takeU32 (input.drop 6)).bind fun (sourceId, bytes) =>
      (takeU32 bytes).bind fun (epoch, bytes) =>
      (takeU32 bytes).bind fun (messageId, bytes) =>
      (takeArray16 bytes).bind fun (baseHash, bytes) =>
      (takeArray16 bytes).bind fun (resultHash, bytes) =>
      (takeU8 bytes).bind fun (updateByte, bytes) =>
      -- the second count is read only when the first one matches
      if updateByte.toNat ≠ updateCount then .error .invalidLength
      else
        (takeU8 bytes).bind fun (residualByte, bytes) =>
        if residualByte.toNat ≠ residualCount then .error .invalidLength
        else
          (readUpdates updateCount none bytes).bind fun (updates, bytes) =>
          (readResiduals residualCount none bytes).bind fun (residuals, bytes) =>
          if ¬ bytes.isEmpty then .error .trailingBytes
          else
            let delta : SemanticDelta :=
              { sourceId, epoch, messageId, baseHash, resultHash, updates, residuals }
            delta.validate.bind fun _ => .ok delta

end SemanticDelta

end LatentMesh.AirCore
