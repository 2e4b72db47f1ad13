import LatentMesh.AirCore.Envelope
import LatentMesh.AirCore.SemanticCanonical

/-!
# Deltas of the bridge

`decode_delta` of `bridge.rs`, against `SemanticEnvelope::unwrap_delta`. The bridge does not bind
the fields that the envelope repeats, so it accepts a delta under another source, epoch, message or
state. See `decode_delta_agrees_iff`.
-/

namespace LatentMesh.Bridge

open LatentMesh.Lib LatentMesh.AirCore

/-- The errors of `BridgeError` that decoding returns. -/
inductive BridgeError where
  | unsupportedClass (semanticClass : SemanticClass)
  | airDecode (error : AirError)
  deriving DecidableEq

/-- `decode_delta`. -/
def decodeDelta (envelope : SemanticEnvelope) : Except BridgeError SemanticDelta :=
  if envelope.semanticClass ≠ .stateDelta then .error (.unsupportedClass envelope.semanticClass)
  else (SemanticDelta.decode envelope.body).mapError .airDecode

/-! ## The header of a body -/

/-- The source id that stands in a body. -/
def bodySourceId (body : List UInt8) : UInt32 := u32OfBe ((body.drop 6).take 4)

/-- The epoch that stands in a body. -/
def bodyEpoch (body : List UInt8) : UInt32 := u32OfBe ((body.drop 10).take 4)

/-- The message id that stands in a body. -/
def bodyMessageId (body : List UInt8) : UInt32 := u32OfBe ((body.drop 14).take 4)

/-- The result hash that stands in a body. -/
def bodyResultHash (body : List UInt8) : List UInt8 := (body.drop 34).take 16

/-- The envelope repeats the fields that stand in the header of its body. -/
def RepeatsBody (envelope : SemanticEnvelope) : Prop :=
  bodySourceId envelope.body = envelope.sourceId ∧ bodyEpoch envelope.body = envelope.epoch ∧
    bodyMessageId envelope.body = envelope.messageId ∧
    bodyResultHash envelope.body = envelope.stateHash.toList

/-- The body of a state delta is the encoding of a delta. -/
def CarriesDelta (envelope : SemanticEnvelope) : Prop :=
  envelope.semanticClass = .stateDelta ∧
    ∃ delta : SemanticDelta, delta.encode = .ok envelope.body

variable {envelope : SemanticEnvelope} {delta : SemanticDelta}

/-- The header of an encoded delta holds its fields. -/
theorem body_header_wire (delta : SemanticDelta) :
    bodySourceId delta.wire = delta.sourceId ∧ bodyEpoch delta.wire = delta.epoch ∧
      bodyMessageId delta.wire = delta.messageId ∧
      bodyResultHash delta.wire = delta.resultHash.toList := by
  have hbase : delta.baseHash.toList.length = 16 := Vector.length_toList
  have hresult : delta.resultHash.toList.length = 16 := Vector.length_toList
  refine ⟨u32_of_be_u32_be _, u32_of_be_u32_be _, u32_of_be_u32_be _, ?_⟩
  show (((delta.baseHash.toList ++ delta.resultHash.toList ++ _ ++ _ ++ _).drop 16).take 16) = _
  rw [List.append_assoc, List.append_assoc, List.append_assoc, List.drop_left' hbase,
    List.take_left' hresult]

/-- The bridge reads a delta from the body of a state delta. -/
theorem decode_delta_eq_ok_iff : decodeDelta envelope = .ok delta ↔
    envelope.semanticClass = .stateDelta ∧ SemanticDelta.decode envelope.body = .ok delta := by
  unfold decodeDelta
  by_cases hclass : envelope.semanticClass = .stateDelta
  · rw [if_neg (not_not.mpr hclass), and_iff_right hclass]
    cases SemanticDelta.decode envelope.body with
    | error error => exact iff_of_false (fun h => by cases h) fun h => by cases h
    | ok decoded => exact ⟨fun h => by cases h; rfl, fun h => by cases h; rfl⟩
  · rw [if_pos hclass]
    exact iff_of_false (fun h => by cases h) fun h => hclass h.1

/-- A decoded delta has the fields of the header. -/
theorem repeats_body_iff (h : SemanticDelta.decode envelope.body = .ok delta) :
    RepeatsBody envelope ↔ delta.sourceId = envelope.sourceId ∧ delta.epoch = envelope.epoch ∧
      delta.messageId = envelope.messageId ∧ delta.resultHash = envelope.stateHash := by
  obtain ⟨-, -, -, hwire⟩ := SemanticDelta.wire_of_decode h
  obtain ⟨hsource, hepoch, hmessage, hresult⟩ := body_header_wire delta
  rw [RepeatsBody, hwire, hsource, hepoch, hmessage, hresult, Vector.toList_inj]

/-- The sibling also asks that the envelope repeats what stands in its body. -/
theorem unwrap_delta_eq_ok_iff : envelope.unwrapDelta = .ok delta ↔
    decodeDelta envelope = .ok delta ∧ RepeatsBody envelope := by
  rw [decode_delta_eq_ok_iff, SemanticEnvelope.unwrapDelta, Lib.guard_eq_ok_iff,
    Lib.bind_eq_ok_iff, not_not, and_assoc]
  refine and_congr_right fun _ => ?_
  constructor
  · rintro ⟨decoded, hdecode, hbind⟩
    obtain ⟨hagree, hdelta⟩ := Lib.guard_eq_ok_iff.mp hbind
    cases hdelta
    simp only [not_or, not_not] at hagree
    exact ⟨hdecode, (repeats_body_iff hdecode).mpr hagree⟩
  · rintro ⟨hdecode, hrepeats⟩
    refine ⟨delta, hdecode, Lib.guard_eq_ok_iff.mpr ⟨?_, rfl⟩⟩
    simp only [not_or, not_not]
    exact (repeats_body_iff hdecode).mp hrepeats

/-- The bridge accepts something when the envelope carries a delta. -/
theorem decode_delta_succeeds_iff :
    (∃ delta, decodeDelta envelope = .ok delta) ↔ CarriesDelta envelope := by
  simp only [decode_delta_eq_ok_iff, exists_and_left, CarriesDelta]
  refine and_congr_right fun _ => ⟨?_, ?_⟩
  · rintro ⟨delta, hdecode⟩
    exact ⟨delta, SemanticDelta.encode_of_decode hdecode⟩
  · rintro ⟨delta, hencode⟩
    exact ⟨_, SemanticDelta.decode_encode hencode⟩

/-- The bridge and the air receiver agree on an envelope, and both refuse one that contradicts its
body, exactly when the envelope carries no delta or repeats the fields of its body. -/
theorem decode_delta_agrees_iff (envelope : SemanticEnvelope) :
    ((∀ delta, decodeDelta envelope = .ok delta ↔ envelope.unwrapDelta = .ok delta) ∧
      (¬ RepeatsBody envelope → ∀ delta,
        decodeDelta envelope ≠ .ok delta ∧ envelope.unwrapDelta ≠ .ok delta)) ↔
    ¬ CarriesDelta envelope ∨ RepeatsBody envelope := by
  constructor
  · rintro ⟨-, hrefused⟩
    by_cases hrepeats : RepeatsBody envelope
    · exact Or.inr hrepeats
    · refine Or.inl fun hcarries => ?_
      obtain ⟨delta, hdecode⟩ := decode_delta_succeeds_iff.mpr hcarries
      exact (hrefused hrepeats delta).1 hdecode
  · intro h
    have hbound : ∀ delta, decodeDelta envelope = .ok delta → RepeatsBody envelope := by
      intro delta hdecode
      exact h.resolve_left (not_not.mpr (decode_delta_succeeds_iff.mp ⟨delta, hdecode⟩))
    refine ⟨fun delta => ?_, fun hrepeats delta => ⟨fun hdecode => ?_, fun hunwrap => ?_⟩⟩
    · rw [unwrap_delta_eq_ok_iff]
      exact ⟨fun hdecode => ⟨hdecode, hbound delta hdecode⟩, And.left⟩
    · exact hrepeats (hbound delta hdecode)
    · exact hrepeats (unwrap_delta_eq_ok_iff.mp hunwrap).2

/-- A delta of the source 7 without updates, in an envelope of the source `sourceId`. -/
def sampleEnvelope (sourceId : UInt32) : SemanticEnvelope where
  semanticClass := .stateDelta
  priority := 1
  sourceId := sourceId
  epoch := 3
  messageId := 99
  logicalSequence := 4
  stateHash := Vector.replicate 16 0
  body := SemanticDelta.wire ⟨7, 3, 99, Vector.replicate 16 0, Vector.replicate 16 0, [], []⟩
  signature := none

/-- The bridge takes the delta of another source, which the air receiver refuses. -/
theorem decode_delta_accepts_other_source :
    ¬ ∀ envelope delta, decodeDelta envelope = .ok delta ↔ envelope.unwrapDelta = .ok delta := by
  intro h
  have haccepted : decodeDelta (sampleEnvelope 8) =
      .ok ⟨7, 3, 99, Vector.replicate 16 0, Vector.replicate 16 0, [], []⟩ := by
    decide
  obtain ⟨-, hsource, -⟩ := unwrap_delta_eq_ok_iff.mp ((h _ _).mp haccepted)
  exact absurd hsource (by decide)

end LatentMesh.Bridge
