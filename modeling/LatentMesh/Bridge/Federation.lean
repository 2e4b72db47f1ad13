import LatentMesh.Bridge.Wire
import LatentMesh.Lib.Guards

/-!
# Federation envelopes of AgentBBS

`FederationEnvelope` of `wire.rs`, `FederationPublisher` and `InMemoryPeer` of `transport.rs`. JSON,
hexadecimal text, BLAKE3 and Ed25519 come from other crates and are parameters. One identity signs
messages and envelopes; the first line of the signed text tells them apart, and an envelope is told
apart from every other by its text (`compose_inj`). A peer opens all that is published
(`opened_payloads_published`).
-/

namespace LatentMesh.Bridge

open LatentMesh.Lib

/-- `PROTOCOL_VERSION`. -/
def protocolVersion : String := "agentbbs/0.1"

variable {τ κ : Type}

/-- A board and what it is about. -/
structure Board (τ : Type) where
  slug : String
  title : String
  description : String
  locked : Bool
  founder : AgentId
  createdAt : τ
  federated : Bool
  deriving DecidableEq, Repr

/-- What nodes send each other. -/
inductive FederationPayload (τ : Type) where
  | announceBoard (board : Board τ)
  | replicateMessage (message : Message τ)
  | peerHello (node : AgentId) (protocol : String)
  | ack (id : String)
  deriving DecidableEq, Repr

/-- A signed message from a node to its peers. -/
structure FederationEnvelope (τ : Type) where
  node : AgentId
  seq : UInt64
  payload : FederationPayload τ
  signature : SignatureBytes
  deriving DecidableEq, Repr

/-- The errors of `WireError` that an envelope gives. -/
inductive EnvelopeError where
  | badSignature
  | json (why : String)
  deriving DecidableEq, Repr

/-- What other crates write and read: `serde_json` payloads and envelopes, and `hex` keys. -/
structure FederationTexts (τ : Type) where
  hexEncode : List UInt8 → String
  payload : FederationPayload τ → Except String String
  envelope : FederationEnvelope τ → Except String (List UInt8)
  read : List UInt8 → Except String (FederationEnvelope τ)

/-- Ed25519 with the secret keys `κ`. -/
structure Ed25519 (κ : Type) where
  id : κ → AgentId
  sign : κ → List UInt8 → SignatureBytes
  verify : AgentId → List UInt8 → SignatureBytes → Bool

/-- Payloads are told apart by their JSON. -/
def FederationTexts.Injective (texts : FederationTexts τ) : Prop :=
  ∀ first second text, texts.payload first = .ok text → texts.payload second = .ok text →
    first = second

namespace FederationEnvelope

/-- The bytes that a node signs. -/
def composeSigningBytes (hexEncode : List UInt8 → String) (node : AgentId) (seq : UInt64)
    (payloadJson : String) : List UInt8 :=
  asBytes "agentbbs.fed.v1\n" ++ asBytes protocolVersion ++ asBytes "\n" ++
    asBytes (node.toHex hexEncode) ++ asBytes "\n" ++ asBytes (toString seq.toNat) ++
    asBytes "\n" ++
    asBytes (toString (asBytes payloadJson).length ++ ":") ++ asBytes payloadJson

variable (texts : FederationTexts τ)

/-- The bytes that are signed for an envelope. -/
def signingBytes (self : FederationEnvelope τ) : Except EnvelopeError (List UInt8) :=
  ((texts.payload self.payload).mapError .json).map fun payloadJson =>
    composeSigningBytes texts.hexEncode self.node self.seq payloadJson

/-- `seal`: sign a payload. -/
def sealPayload (ed25519 : Ed25519 κ) (identity : κ) (payload : FederationPayload τ)
    (seq : UInt64) : Except EnvelopeError (FederationEnvelope τ) :=
  ((texts.payload payload).mapError .json).map fun payloadJson =>
    let bytes := composeSigningBytes texts.hexEncode (ed25519.id identity) seq payloadJson
    ⟨ed25519.id identity, seq, payload, ed25519.sign identity bytes⟩

/-- `open`: verify the signature of the node and return the payload. -/
def openPayload (verify : AgentId → List UInt8 → SignatureBytes → Bool)
    (self : FederationEnvelope τ) : Except EnvelopeError (FederationPayload τ) :=
  (self.signingBytes texts).bind fun bytes =>
  if verify self.node bytes self.signature then .ok self.payload else .error .badSignature

end FederationEnvelope

/-- `FederationPublisher`, without the sink. -/
structure FederationPublisher (κ : Type) where
  identity : κ
  seq : UInt64
  deriving DecidableEq, Repr

/-- `publish`: the envelope, and the bytes for the sink. The sequence advances before anything can
fail. -/
def FederationPublisher.publish (texts : FederationTexts τ) (ed25519 : Ed25519 κ)
    (self : FederationPublisher κ) (payload : FederationPayload τ) :
    FederationPublisher κ × Except EnvelopeError (FederationEnvelope τ × List UInt8) :=
  let seq := self.seq + 1
  ({ self with seq },
    (FederationEnvelope.sealPayload texts ed25519 self.identity payload seq).bind fun envelope =>
    ((texts.envelope envelope).mapError .json).map fun bytes => (envelope, bytes))

/-- What `opened_payloads` does with the bytes of an envelope. -/
def openBytes (texts : FederationTexts τ) (verify : AgentId → List UInt8 → SignatureBytes → Bool)
    (bytes : List UInt8) : Except EnvelopeError (FederationPayload τ) :=
  ((texts.read bytes).mapError .json).bind fun envelope => envelope.openPayload texts verify

/-- `opened_payloads`. -/
def openedPayloads (texts : FederationTexts τ)
    (verify : AgentId → List UInt8 → SignatureBytes → Bool) (received : List (List UInt8)) :
    Except EnvelopeError (List (FederationPayload τ)) :=
  received.mapM (openBytes texts verify)

/-- `Message::sign`. -/
def Message.sign (hexEncode : List UInt8 → String) (toRfc3339 : τ → String)
    (blake3 : List UInt8 → Vector UInt8 32) (ed25519 : Ed25519 κ) (identity : κ)
    (body : MessageBody τ) : Except WireError (Message τ) :=
  if ed25519.id identity ≠ body.author then
    .error (.malformed "message" "signing identity does not match author")
  else
    .ok ⟨body.id hexEncode toRfc3339 blake3, body,
      ed25519.sign identity (body.signingBytes hexEncode toRfc3339)⟩

/-! ## The text of an envelope -/

variable {hexEncode : List UInt8 → String}

/-- The lines in front of the payload. -/
def envelopeLines (hexEncode : List UInt8 → String) (node : AgentId) (seq : UInt64) : List String :=
  ["agentbbs.fed.v1", protocolVersion, node.toHex hexEncode, toString seq.toNat]

/-- The text whose bytes are signed. -/
def envelopeText (hexEncode : List UInt8 → String) (node : AgentId) (seq : UInt64)
    (payloadJson : String) : String :=
  String.ofList (terminated '\n' ((envelopeLines hexEncode node seq).map String.toList) ++
    ((toString (asBytes payloadJson).length).toList ++ ':' :: payloadJson.toList))

/-- The signed bytes are the lines of the envelope and the payload. -/
theorem compose_eq (node : AgentId) (seq : UInt64) (payloadJson : String) :
    FederationEnvelope.composeSigningBytes hexEncode node seq payloadJson =
      asBytes (envelopeText hexEncode node seq payloadJson) := by
  unfold FederationEnvelope.composeSigningBytes
  simp only [← as_bytes_append]
  refine congrArg asBytes (String.toList_inj.mp ?_)
  simp [envelopeText, envelopeLines, terminated]

/-- No line of an envelope has a line break. -/
theorem envelope_lines_single (hhex : HexEncodes hexEncode) (node : AgentId) (seq : UInt64) :
    ∀ line ∈ (envelopeLines hexEncode node seq).map String.toList, '\n' ∉ line := by
  refine List.forall_mem_map.mpr ?_
  simp only [envelopeLines, List.forall_mem_cons]
  exact ⟨by decide, by decide, hhex.single_line _, decimal_single_line _,
    fun _ hmem => absurd hmem List.not_mem_nil⟩

/-- The signed bytes give the node, the sequence and the payload back. -/
theorem compose_inj (hhex : HexEncodes hexEncode) {node other : AgentId} {seq otherSeq : UInt64}
    {text otherText : String}
    (h : FederationEnvelope.composeSigningBytes hexEncode node seq text =
      FederationEnvelope.composeSigningBytes hexEncode other otherSeq otherText) :
    node = other ∧ seq = otherSeq ∧ text = otherText := by
  rw [compose_eq, compose_eq] at h
  have htext := String.ofList_inj.mp (as_bytes_inj h)
  obtain ⟨hlines, hrest⟩ := terminated_inj (envelope_lines_single hhex node seq)
    (envelope_lines_single hhex other otherSeq) rfl htext
  obtain ⟨-, hpayload⟩ := field_inj (colon_not_mem_decimal _) (colon_not_mem_decimal _) hrest
  have hsame := List.map_injective_iff.mpr (fun _ _ => String.toList_inj.mp) hlines
  simp only [envelopeLines, List.cons.injEq, and_true, true_and] at hsame
  exact ⟨MessageBody.AgentId.to_hex_inj hhex hsame.1, UInt64.toNat_inj.mp (decimal_inj hsame.2),
    String.toList_inj.mp hpayload⟩

/-- No message is signed with the bytes of an envelope. -/
theorem compose_ne_signing_bytes (hexEncode : List UInt8 → String) (toRfc3339 : τ → String)
    (node : AgentId) (seq : UInt64) (text : String) (body : MessageBody τ) :
    FederationEnvelope.composeSigningBytes hexEncode node seq text ≠
      body.signingBytes hexEncode toRfc3339 := by
  intro h
  rw [compose_eq, MessageBody.signing_bytes_eq] at h
  have htext := String.ofList_inj.mp (as_bytes_inj h)
  have hversion : SingleLine
      (if body.kind ≠ .post then "agentbbs.msg.v2" else "agentbbs.msg.v1") := by
    split <;> decide
  obtain ⟨hhead, -⟩ := field_inj (by decide) hversion
    ((terminated_cons _ _ _ _).symm.trans (htext.trans (terminated_cons _ _ _ _)))
  split at hhead
  · exact absurd hhead (by decide)
  · exact absurd hhead (by decide)

/-! ## Publishing and opening -/

/-- The parameters do what the other crates document: an envelope is read back, and a signature
verifies. -/
structure ReadsBack (texts : FederationTexts τ) (ed25519 : Ed25519 κ) : Prop where
  read : ∀ envelope bytes, texts.envelope envelope = .ok bytes → texts.read bytes = .ok envelope
  verify : ∀ identity text,
    ed25519.verify (ed25519.id identity) text (ed25519.sign identity text) = true

variable {texts : FederationTexts τ} {ed25519 : Ed25519 κ}

/-- A peer opens what is published. -/
theorem open_bytes_published (h : ReadsBack texts ed25519) {publisher : FederationPublisher κ}
    {payload : FederationPayload τ} {envelope : FederationEnvelope τ} {bytes : List UInt8}
    (hpublish : (publisher.publish texts ed25519 payload).2 = .ok (envelope, bytes)) :
    openBytes texts ed25519.verify bytes = .ok payload ∧ envelope.payload = payload := by
  obtain ⟨original, hseal, hwritten⟩ := bind_eq_ok_iff.mp hpublish
  obtain ⟨written, hbytes, hpair⟩ := map_eq_ok_iff.mp hwritten
  obtain ⟨text, htext, horiginal⟩ := map_eq_ok_iff.mp hseal
  cases hpair
  have hread := h.read _ _ (map_error_eq_ok_iff.mp hbytes)
  have hjson := map_error_eq_ok_iff.mp htext
  refine ⟨?_, by rw [← horiginal]⟩
  unfold openBytes
  rw [hread, ← horiginal]
  show (FederationEnvelope.openPayload _ _ _) = _
  unfold FederationEnvelope.openPayload FederationEnvelope.signingBytes
  dsimp only
  rw [hjson]
  exact if_pos (h.verify publisher.identity _)

/-- The publications of a publisher that reach its sink. -/
def FederationPublisher.publishAll (texts : FederationTexts τ) (ed25519 : Ed25519 κ)
    (self : FederationPublisher κ) :
    List (FederationPayload τ) → List (FederationEnvelope τ × List UInt8)
  | [] => []
  | payload :: payloads =>
      let published := self.publish texts ed25519 payload
      published.2.toOption.toList ++ published.1.publishAll texts ed25519 payloads

/-- A peer that receives all that is published opens all of it, in order. -/
theorem opened_payloads_published (h : ReadsBack texts ed25519) (publisher : FederationPublisher κ)
    (payloads : List (FederationPayload τ)) :
    openedPayloads texts ed25519.verify
        ((publisher.publishAll texts ed25519 payloads).map fun published => published.2) =
      .ok ((publisher.publishAll texts ed25519 payloads).map fun published =>
        published.1.payload) := by
  induction payloads generalizing publisher with
  | nil => rfl
  | cons payload payloads ih =>
      unfold FederationPublisher.publishAll
      dsimp only
      cases hpublish : (publisher.publish texts ed25519 payload).2 with
      | error error => exact ih _
      | ok published =>
          obtain ⟨hopen, hpayload⟩ := open_bytes_published h hpublish
          have hrest := ih (publisher.publish texts ed25519 payload).1
          unfold openedPayloads at hrest ⊢
          simp only [Except.toOption, Option.toList_some, List.singleton_append, List.map_cons]
          rw [List.mapM_cons, hopen, hrest, ← hpayload]
          rfl

end LatentMesh.Bridge
