import Mathlib.Logic.Function.Basic
import LatentMesh.Bridge.Federation

/-!
# Who has sent what in a federation

Honest nodes publish envelopes and sign messages. Each of them keeps one publisher for the whole
run, so its envelopes are numbered by one counter; a second publisher of the same identity would
count from 0 again. Everything else that a peer receives comes from an adversary, who may drop,
repeat, reorder, change and make up bytes but forges no signature of an honest node. What a peer
opens under the name of an honest node is then what that node has sealed
(`opened_payloads_authentic`), and a replicated message of an honest author has the bytes of a
message that the author has signed (`replicated_was_signed`).
-/

namespace LatentMesh.Bridge

open LatentMesh.Lib

variable {τ κ : Type}

/-- What happens in a federation with the honest identities `κ`. -/
inductive FederationEvent (κ τ : Type) where
  | publish (identity : κ) (payload : FederationPayload τ)
  | sign (identity : κ) (body : MessageBody τ)
  | receive (bytes : List UInt8)

/-- The counters of the publishers, one for each identity, what they have sealed, the bodies and
the bytes that have been signed, and what the peers have received. -/
structure Federation (κ τ : Type) where
  seq : κ → UInt64
  sealedEnvelopes : List (FederationEnvelope τ)
  bodies : List (MessageBody τ)
  signed : List (AgentId × List UInt8)
  received : List (List UInt8)

/-- The functions of other crates that the federation runs on. -/
structure FederationOps (κ τ : Type) where
  texts : FederationTexts τ
  ed25519 : Ed25519 κ
  toRfc3339 : τ → String
  blake3 : List UInt8 → Vector UInt8 32

namespace Federation

variable (ops : FederationOps κ τ)

/-- Before any event nothing is signed, sealed or received. -/
def new : Federation κ τ := ⟨fun _ => 0, [], [], [], []⟩

/-- An envelope that is sealed is signed; a message that is signed by its author, too. -/
def step [DecidableEq κ] (self : Federation κ τ) : FederationEvent κ τ → Federation κ τ
  | .publish identity payload =>
      let publisher : FederationPublisher κ := ⟨identity, self.seq identity⟩
      let next := (publisher.publish ops.texts ops.ed25519 payload).1
      let advanced := { self with seq := Function.update self.seq identity next.seq }
      match FederationEnvelope.sealPayload ops.texts ops.ed25519 identity payload next.seq with
      | .error _ => advanced
      | .ok envelope =>
          { advanced with
            sealedEnvelopes := self.sealedEnvelopes ++ [envelope]
            signed := self.signed ++ (envelope.signingBytes ops.texts).toOption.toList.map
              fun bytes => (envelope.node, bytes) }
  | .sign identity body =>
      match Message.sign ops.texts.hexEncode ops.toRfc3339 ops.blake3 ops.ed25519 identity body with
      | .error _ => self
      | .ok message =>
          { self with
            bodies := self.bodies ++ [message.body]
            signed := self.signed ++ [(message.body.author,
              message.body.signingBytes ops.texts.hexEncode ops.toRfc3339)] }
  | .receive bytes => { self with received := self.received ++ [bytes] }

/-- An identity of an honest node. -/
def Honest (agent : AgentId) : Prop := ∃ identity, ops.ed25519.id identity = agent

/-- What the bytes claim an agent to have signed. -/
inductive Claims (bytes : List UInt8) : AgentId → List UInt8 → SignatureBytes → Prop where
  | envelope {envelope : FederationEnvelope τ} {text : List UInt8} :
      ops.texts.read bytes = .ok envelope → envelope.signingBytes ops.texts = .ok text →
      Claims bytes envelope.node text envelope.signature
  | message {envelope : FederationEnvelope τ} {message : Message τ} :
      ops.texts.read bytes = .ok envelope → envelope.payload = .replicateMessage message →
      Claims bytes message.body.author
        (message.body.signingBytes ops.texts.hexEncode ops.toRfc3339) message.signature

/-- The bytes have no valid signature of an honest agent for a text that it has not signed. -/
def Unforged (self : Federation κ τ) (bytes : List UInt8) : Prop :=
  ∀ agent text signature, Claims ops bytes agent text signature → Honest ops agent →
    ops.ed25519.verify agent text signature = true → (agent, text) ∈ self.signed

/-- The runs without a forged signature. -/
inductive Run [DecidableEq κ] : List (FederationEvent κ τ) → Federation κ τ → Prop where
  | start : Run [] new
  | step {events : List (FederationEvent κ τ)} {federation : Federation κ τ}
      (event : FederationEvent κ τ) :
      Run events federation →
      (∀ bytes, event = .receive bytes → Unforged ops federation bytes) →
      Run (events ++ [event]) (federation.step ops event)

/-- How often an identity publishes. -/
def publishes [DecidableEq κ] (events : List (FederationEvent κ τ)) (identity : κ) : Nat :=
  events.countP fun event =>
    match event with
    | .publish other _ => other = identity
    | _ => false

/-- Everything that is signed was sealed or signed as a message, and nothing that is received is
forged. -/
structure Traced (federation : Federation κ τ) : Prop where
  signed : ∀ agent text, (agent, text) ∈ federation.signed →
    (∃ envelope ∈ federation.sealedEnvelopes, envelope.node = agent ∧
      envelope.signingBytes ops.texts = .ok text) ∨
    ∃ body ∈ federation.bodies, body.author = agent ∧
      body.signingBytes ops.texts.hexEncode ops.toRfc3339 = text
  received : ∀ bytes ∈ federation.received, Unforged ops federation bytes

/-- The counters count the publications, and no two sealed envelopes have one counter. -/
structure Numbered [DecidableEq κ] (events : List (FederationEvent κ τ))
    (federation : Federation κ τ) : Prop where
  seq : ∀ identity, (federation.seq identity).toNat = publishes events identity
  sealedSeq : ∀ envelope ∈ federation.sealedEnvelopes, ∀ identity,
    ops.ed25519.id identity = envelope.node → envelope.seq.toNat ≤ publishes events identity
  consistent : ∀ envelope ∈ federation.sealedEnvelopes, ∀ other ∈ federation.sealedEnvelopes,
    envelope.node = other.node → envelope.seq = other.seq → envelope.payload = other.payload

/-! ## One step -/

variable {ops} {federation : Federation κ τ}

/-- What a sealed envelope is. -/
theorem seal_eq_ok {identity : κ} {payload : FederationPayload τ} {seq : UInt64}
    {envelope : FederationEnvelope τ}
    (h : FederationEnvelope.sealPayload ops.texts ops.ed25519 identity payload seq = .ok envelope) :
    envelope.node = ops.ed25519.id identity ∧ envelope.seq = seq ∧ envelope.payload = payload ∧
      ∃ text, ops.texts.payload payload = .ok text ∧
        envelope.signingBytes ops.texts =
          .ok (FederationEnvelope.composeSigningBytes ops.texts.hexEncode envelope.node seq text) ∧
        envelope.signature = ops.ed25519.sign identity
          (FederationEnvelope.composeSigningBytes ops.texts.hexEncode envelope.node seq text) := by
  unfold FederationEnvelope.sealPayload at h
  cases htext : ops.texts.payload payload with
  | error why =>
      rw [htext] at h
      cases h
  | ok text =>
      rw [htext] at h
      cases h
      refine ⟨rfl, rfl, rfl, text, rfl, ?_, rfl⟩
      unfold FederationEnvelope.signingBytes
      rw [htext]
      rfl

variable [DecidableEq κ]

/-- What a publication does: the counter advances, and an envelope may be sealed. -/
theorem step_publish (ops : FederationOps κ τ) (federation : Federation κ τ) (identity : κ)
    (payload : FederationPayload τ) :
    federation.step ops (.publish identity payload) =
        { federation with
          seq := Function.update federation.seq identity (federation.seq identity + 1) } ∨
      ∃ envelope text, envelope.node = ops.ed25519.id identity ∧
        envelope.seq = federation.seq identity + 1 ∧ envelope.payload = payload ∧
        envelope.signingBytes ops.texts = .ok text ∧
        federation.step ops (.publish identity payload) =
          { federation with
            seq := Function.update federation.seq identity (federation.seq identity + 1)
            sealedEnvelopes := federation.sealedEnvelopes ++ [envelope]
            signed := federation.signed ++ [(envelope.node, text)] } := by
  cases hseal : FederationEnvelope.sealPayload ops.texts ops.ed25519 identity payload
      (federation.seq identity + 1) with
  | error error =>
      left
      simp only [step, FederationPublisher.publish, hseal]
  | ok envelope =>
      obtain ⟨hnode, hseq, hpayload, text, -, hsigning, -⟩ := seal_eq_ok hseal
      refine Or.inr ⟨envelope, _, hnode, hseq, hpayload, hsigning, ?_⟩
      simp only [step, FederationPublisher.publish, hseal, hsigning]
      rfl

/-- What signing does: nothing, or the author signs its own message. -/
theorem step_sign (ops : FederationOps κ τ) (federation : Federation κ τ) (identity : κ)
    (body : MessageBody τ) :
    federation.step ops (.sign identity body) = federation ∨
      federation.step ops (.sign identity body) =
        { federation with
          bodies := federation.bodies ++ [body]
          signed := federation.signed ++
            [(body.author, body.signingBytes ops.texts.hexEncode ops.toRfc3339)] } := by
  unfold step Message.sign
  dsimp only
  by_cases hauthor : ops.ed25519.id identity ≠ body.author
  · rw [if_pos hauthor]
    exact Or.inl rfl
  · rw [if_neg hauthor]
    exact Or.inr rfl

omit [DecidableEq κ] in
/-- What has not been forged stays unforged when more is signed. -/
theorem Unforged.mono {next : Federation κ τ} {bytes : List UInt8}
    (h : Unforged ops federation bytes) (hsigned : federation.signed ⊆ next.signed) :
    Unforged ops next bytes :=
  fun agent text signature hclaim hhonest hverify =>
    hsigned (h agent text signature hclaim hhonest hverify)

/-- An event without a forgery keeps that what is received was sealed. -/
theorem Traced.step (h : Traced ops federation) (event : FederationEvent κ τ)
    (hforge : ∀ bytes, event = .receive bytes → Unforged ops federation bytes) :
    Traced ops (federation.step ops event) := by
  cases event with
  | publish identity payload =>
      rcases step_publish ops federation identity payload with
        hstep | ⟨envelope, text, -, -, -, hsigning, hstep⟩
      · rw [hstep]
        exact ⟨h.signed, h.received⟩
      · rw [hstep]
        refine ⟨fun agent signed hmem => ?_, fun bytes hbytes =>
          (h.received bytes hbytes).mono (List.subset_append_left _ _)⟩
        rcases List.mem_append.mp hmem with hold | hnew
        · rcases h.signed agent signed hold with ⟨other, hother, hsource⟩ | hbody
          · exact Or.inl ⟨other, List.mem_append_left _ hother, hsource⟩
          · exact Or.inr hbody
        · cases List.mem_singleton.mp hnew
          exact Or.inl ⟨envelope, List.mem_append_right _ (List.mem_singleton_self _), rfl,
            hsigning⟩
  | sign identity body =>
      rcases step_sign ops federation identity body with hstep | hstep
      · rw [hstep]
        exact h
      · rw [hstep]
        refine ⟨fun agent signed hmem => ?_, fun bytes hbytes =>
          (h.received bytes hbytes).mono (List.subset_append_left _ _)⟩
        rcases List.mem_append.mp hmem with hold | hnew
        · rcases h.signed agent signed hold with hsealed | ⟨other, hother, hsource⟩
          · exact Or.inl hsealed
          · exact Or.inr ⟨other, List.mem_append_left _ hother, hsource⟩
        · cases List.mem_singleton.mp hnew
          exact Or.inr ⟨body, List.mem_append_right _ (List.mem_singleton_self _), rfl, rfl⟩
  | receive bytes =>
      refine ⟨h.signed, fun other hother => ?_⟩
      rcases List.mem_append.mp hother with hold | hnew
      · exact h.received other hold
      · rw [List.mem_singleton.mp hnew]
        exact hforge bytes rfl

/-- In every run without forgeries, what is received was sealed. -/
theorem run_traced {events : List (FederationEvent κ τ)} (h : Run ops events federation) :
    Traced ops federation := by
  induction h with
  | start => exact ⟨fun _ _ hmem => absurd hmem List.not_mem_nil,
      fun _ hmem => absurd hmem List.not_mem_nil⟩
  | step event _ hforge ih => exact ih.step event hforge

/-! ## Counters -/

/-- The publications of an identity after one more event. -/
theorem publishes_concat (events : List (FederationEvent κ τ)) (event : FederationEvent κ τ)
    (identity : κ) :
    publishes (events ++ [event]) identity =
      publishes events identity + publishes [event] identity :=
  List.countP_append

/-- A publication counts for its identity only. -/
theorem publishes_publish (other identity : κ) (payload : FederationPayload τ) :
    publishes [.publish other payload] identity = if other = identity then 1 else 0 := by
  simp [publishes, List.countP_cons]

/-- A publication that does not make the counter overflow. -/
theorem Numbered.publish {events : List (FederationEvent κ τ)} (h : Numbered ops events federation)
    (hinjective : Function.Injective ops.ed25519.id) (identity : κ)
    (payload : FederationPayload τ)
    (hcount : publishes (events ++ [.publish identity payload]) identity < 2 ^ 64) :
    Numbered ops (events ++ [.publish identity payload])
      (federation.step ops (.publish identity payload)) := by
  have hcounts : ∀ other, publishes (events ++ [.publish identity payload]) other =
      publishes events other + if identity = other then 1 else 0 := by
    intro other
    rw [publishes_concat, publishes_publish]
  have hnext : (federation.seq identity + 1).toNat = publishes events identity + 1 := by
    rw [hcounts, if_pos rfl] at hcount
    rw [UInt64.toNat_add, UInt64.toNat_one, h.seq, Nat.mod_eq_of_lt hcount]
  have hseq : ∀ other,
      (Function.update federation.seq identity (federation.seq identity + 1) other).toNat =
        publishes (events ++ [.publish identity payload]) other := by
    intro other
    rw [hcounts]
    by_cases heq : identity = other
    · rw [if_pos heq, ← heq, Function.update_self, hnext]
    · rw [if_neg heq, Function.update_of_ne (Ne.symm heq), h.seq, Nat.add_zero]
  have hold : ∀ envelope ∈ federation.sealedEnvelopes, ∀ other,
      ops.ed25519.id other = envelope.node →
        envelope.seq.toNat ≤ publishes (events ++ [.publish identity payload]) other := by
    intro envelope hmem other hnode
    rw [hcounts]
    exact Nat.le_trans (h.sealedSeq envelope hmem other hnode) (Nat.le_add_right _ _)
  rcases step_publish ops federation identity payload with
    hstep | ⟨envelope, text, hnode, henvelope, -, -, hstep⟩
  · rw [hstep]
    exact ⟨hseq, hold, h.consistent⟩
  · rw [hstep]
    -- the new envelope has a larger number than all that the identity has sealed
    have hlater : ∀ other ∈ federation.sealedEnvelopes, envelope.node = other.node →
        other.seq ≠ envelope.seq := by
      intro other hmem hsame hseq
      have hle := h.sealedSeq other hmem identity (hnode.symm.trans hsame)
      rw [hseq, henvelope, hnext] at hle
      omega
    refine ⟨hseq, fun other hmem agent hagent => ?_, fun first hfirst second hsecond hsame hseq =>
      ?_⟩
    · rcases List.mem_append.mp hmem with hbefore | hnew
      · exact hold other hbefore agent hagent
      · rw [List.mem_singleton.mp hnew] at hagent ⊢
        rw [hinjective (hagent.trans hnode), henvelope, hnext, hcounts, if_pos rfl]
    · rcases List.mem_append.mp hfirst with hfirst | hfirst <;>
        rcases List.mem_append.mp hsecond with hsecond | hsecond
      · exact h.consistent first hfirst second hsecond hsame hseq
      · rw [List.mem_singleton.mp hsecond] at hsame hseq
        exact absurd hseq (hlater first hfirst hsame.symm)
      · rw [List.mem_singleton.mp hfirst] at hsame hseq
        exact absurd hseq.symm (hlater second hsecond hsame)
      · rw [List.mem_singleton.mp hfirst, List.mem_singleton.mp hsecond]

/-- The envelopes of an identity are numbered in the order of its publications. -/
theorem run_numbered {events : List (FederationEvent κ τ)} (h : Run ops events federation)
    (hinjective : Function.Injective ops.ed25519.id)
    (hcount : ∀ identity, publishes events identity < 2 ^ 64) : Numbered ops events federation := by
  induction h with
  | start =>
      exact ⟨fun _ => rfl, fun _ hmem => absurd hmem List.not_mem_nil,
        fun _ hmem => absurd hmem List.not_mem_nil⟩
  | @step events before event _ _ ih =>
      have hbefore := ih fun identity => by
        have hidentity := hcount identity
        rw [publishes_concat] at hidentity
        omega
      cases event with
      | publish identity payload => exact hbefore.publish hinjective identity payload (hcount _)
      | sign identity body =>
          have hsame : ∀ other, publishes (events ++ [.sign identity body]) other =
              publishes events other := fun other => publishes_concat _ _ _
          rcases step_sign ops before identity body with hstep | hstep <;>
            rw [hstep] <;>
            exact ⟨fun other => (hbefore.seq other).trans (hsame other).symm,
              fun envelope hmem other hnode => (hsame other).symm ▸
                hbefore.sealedSeq envelope hmem other hnode, hbefore.consistent⟩
      | receive bytes =>
          have hsame : ∀ other, publishes (events ++ [.receive bytes]) other =
              publishes events other := fun other => publishes_concat _ _ _
          exact ⟨fun other => (hbefore.seq other).trans (hsame other).symm,
            fun envelope hmem other hnode => (hsame other).symm ▸
              hbefore.sealedSeq envelope hmem other hnode, hbefore.consistent⟩

/-! ## What is opened -/

variable {events : List (FederationEvent κ τ)} {bytes : List UInt8}
  {envelope : FederationEnvelope τ} {payload : FederationPayload τ}

omit [DecidableEq κ] in
/-- An envelope that is opened carries the payload and a valid signature of its node. -/
theorem open_payload_eq_ok {verify : AgentId → List UInt8 → SignatureBytes → Bool}
    {texts : FederationTexts τ} (h : envelope.openPayload texts verify = .ok payload) :
    envelope.payload = payload ∧ ∃ text, texts.payload envelope.payload = .ok text ∧
      envelope.signingBytes texts = .ok (FederationEnvelope.composeSigningBytes texts.hexEncode
        envelope.node envelope.seq text) ∧
      verify envelope.node (FederationEnvelope.composeSigningBytes texts.hexEncode envelope.node
        envelope.seq text) envelope.signature = true := by
  obtain ⟨signed, hsigned, hverify⟩ := Lib.bind_eq_ok_iff.mp h
  unfold FederationEnvelope.signingBytes at hsigned ⊢
  cases htext : texts.payload envelope.payload with
  | error why =>
      rw [htext] at hsigned
      cases hsigned
  | ok text =>
      rw [htext] at hsigned
      cases hsigned
      split at hverify
      · rename_i hvalid
        cases hverify
        exact ⟨rfl, text, rfl, rfl, hvalid⟩
      · cases hverify

/-- A payload that a peer opens under an honest node was sealed by that node, with that sequence. -/
theorem sealed_of_opened (hhex : HexEncodes ops.texts.hexEncode) (hjson : ops.texts.Injective)
    (hrun : Run ops events federation)
    (hreceived : bytes ∈ federation.received) (hread : ops.texts.read bytes = .ok envelope)
    (hopen : envelope.openPayload ops.texts ops.ed25519.verify = .ok payload)
    (hhonest : Honest ops envelope.node) :
    ∃ original ∈ federation.sealedEnvelopes, original.node = envelope.node ∧
      original.seq = envelope.seq ∧ original.payload = payload := by
  obtain ⟨hpayload, text, htext, hsigning, hverify⟩ := open_payload_eq_ok hopen
  have htraced := run_traced hrun
  have hsigned := htraced.received bytes hreceived _ _ _ (.envelope hread hsigning) hhonest hverify
  rcases htraced.signed _ _ hsigned with ⟨original, hmem, -, horiginal⟩ | ⟨body, -, -, hbody⟩
  · -- the text tells the envelopes apart
    unfold FederationEnvelope.signingBytes at horiginal
    cases hjsonText : ops.texts.payload original.payload with
    | error why =>
        rw [hjsonText] at horiginal
        cases horiginal
    | ok other =>
        rw [hjsonText] at horiginal
        obtain ⟨hnode, hseq, rfl⟩ := compose_inj hhex (Except.ok.inj horiginal)
        exact ⟨original, hmem, hnode, hseq,
          (hjson _ _ _ hjsonText htext).trans hpayload⟩
  · exact absurd hbody.symm (compose_ne_signing_bytes _ _ _ _ _ _)

/-- What a peer opens under the name of an honest node was sealed by that node, and two envelopes of
that node with one sequence have one payload. -/
theorem opened_payloads_authentic (hhex : HexEncodes ops.texts.hexEncode)
    (hjson : ops.texts.Injective)
    (hinjective : Function.Injective ops.ed25519.id) (hrun : Run ops events federation)
    (hcount : ∀ identity, publishes events identity < 2 ^ 64) :
    (∀ bytes ∈ federation.received, ∀ envelope payload, ops.texts.read bytes = .ok envelope →
      envelope.openPayload ops.texts ops.ed25519.verify = .ok payload → Honest ops envelope.node →
        ∃ original ∈ federation.sealedEnvelopes, original.node = envelope.node ∧
          original.seq = envelope.seq ∧ original.payload = payload) ∧
    ∀ bytes ∈ federation.received, ∀ others ∈ federation.received, ∀ envelope other payload second,
      ops.texts.read bytes = .ok envelope → ops.texts.read others = .ok other →
      envelope.openPayload ops.texts ops.ed25519.verify = .ok payload →
      other.openPayload ops.texts ops.ed25519.verify = .ok second → Honest ops envelope.node →
      envelope.node = other.node → envelope.seq = other.seq → payload = second := by
  refine ⟨fun bytes hreceived envelope payload hread hopen hhonest =>
    sealed_of_opened hhex hjson hrun hreceived hread hopen hhonest, ?_⟩
  intro bytes hreceived others hothers envelope other payload second hread hreadOther hopen
    hopenOther hhonest hnode hseq
  obtain ⟨original, hmem, horiginalNode, horiginalSeq, rfl⟩ :=
    sealed_of_opened hhex hjson hrun hreceived hread hopen hhonest
  obtain ⟨copy, hcopy, hcopyNode, hcopySeq, rfl⟩ :=
    sealed_of_opened hhex hjson hrun hothers hreadOther hopenOther (hnode ▸ hhonest)
  exact (run_numbered hrun hinjective hcount).consistent original hmem copy hcopy
    (horiginalNode.trans (hnode.trans hcopyNode.symm))
    (horiginalSeq.trans (hseq.trans hcopySeq.symm))

/-- The identity whose key is all zeros, and its only signature. -/
def sampleAgent : AgentId := ⟨Vector.replicate 32 0⟩

/-- A signature of zeros. -/
def sampleSignature : SignatureBytes := Vector.replicate 64 0

/-- An envelope of that identity with the number 1. -/
def samplePayloadEnvelope (payload : FederationPayload Unit) : FederationEnvelope Unit :=
  ⟨sampleAgent, 1, payload, sampleSignature⟩

/-- The JSON of an envelope with the JSON of its payload. -/
def sampleEnvelopeBytes (payloadText : String) : List UInt8 :=
  asBytes ("\x7b\"node\":\"" ++ sampleAgent.toHex hexText ++ "\",\"seq\":1,\"payload\":" ++
    payloadText ++ ",\"signature\":\"" ++ hexText sampleSignature.toList ++ "\"\x7d")

/-- What the other crates do with one payload, and one text that is signed. -/
def sampleOps (payload : FederationPayload Unit) (payloadText : String) (text : List UInt8) :
    FederationOps Unit Unit where
  texts :=
    { hexEncode := hexText
      payload := fun other => if other = payload then .ok payloadText else .error "not a sample"
      envelope := fun envelope =>
        if envelope = samplePayloadEnvelope payload then .ok (sampleEnvelopeBytes payloadText)
        else .error "not a sample"
      read := fun bytes =>
        if bytes = sampleEnvelopeBytes payloadText then .ok (samplePayloadEnvelope payload)
        else .error "expected value at line 1 column 1" }
  ed25519 :=
    { id := fun _ => sampleAgent
      sign := fun _ _ => sampleSignature
      verify := fun agent other signature =>
        agent = sampleAgent ∧ other = text ∧ signature = sampleSignature }
  toRfc3339 := MessageBody.sampleRfc3339
  blake3 := fun _ => Vector.replicate 32 0

/-- The sample writes every payload as one text. -/
theorem sample_payload (payload : FederationPayload Unit) (payloadText : String)
    (text : List UInt8) :
    (sampleOps payload payloadText text).texts.payload payload = .ok payloadText := by
  simp [sampleOps]

/-- The sample reads its envelope. -/
theorem sample_read (payload : FederationPayload Unit) (payloadText : String) (text : List UInt8) :
    (sampleOps payload payloadText text).texts.read (sampleEnvelopeBytes payloadText) =
      .ok (samplePayloadEnvelope payload) := by
  simp [sampleOps]

/-- The sample accepts its signature for its text. -/
theorem sample_verify (payload : FederationPayload Unit) (payloadText : String)
    (text : List UInt8) :
    (sampleOps payload payloadText text).ed25519.verify sampleAgent text sampleSignature =
      true := by
  simp [sampleOps]

/-- The sample envelope opens to its payload. -/
theorem sample_open (payload : FederationPayload Unit) (payloadText : String) :
    (samplePayloadEnvelope payload).openPayload
        (sampleOps payload payloadText
          (FederationEnvelope.composeSigningBytes hexText sampleAgent 1 payloadText)).texts
        (sampleOps payload payloadText (FederationEnvelope.composeSigningBytes hexText sampleAgent 1
          payloadText)).ed25519.verify =
      .ok payload := by
  simp [FederationEnvelope.openPayload, FederationEnvelope.signingBytes, samplePayloadEnvelope,
    sampleOps, Except.bind, Except.map, Except.mapError]

/-- The texts of the sample tell what was written. -/
theorem sample_injective (payload : FederationPayload Unit) (payloadText : String)
    (text : List UInt8) : (sampleOps payload payloadText text).texts.Injective := by
  have hpayload : ∀ other found,
      (sampleOps payload payloadText text).texts.payload other = .ok found → other = payload := by
    intro other found h
    by_contra hne
    simp [sampleOps, hne] at h
  intro first second found hfirst hsecond
  rw [hpayload first found hfirst, hpayload second found hsecond]

/-- Bytes are not forged once their text is signed. -/
theorem unforged_sample {payload : FederationPayload Unit} {payloadText : String}
    {text bytes : List UInt8} {federation : Federation Unit Unit}
    (h : (sampleAgent, text) ∈ federation.signed) :
    Unforged (sampleOps payload payloadText text) federation bytes := by
  intro agent other signature _ _ hverify
  obtain ⟨rfl, rfl, -⟩ := of_decide_eq_true hverify
  exact h

/-- `{"type":"ack","id":"a"}` -/
def ackText : String := "\x7b\"type\":\"ack\",\"id\":\"a\"\x7d"

/-- The sample for an acknowledgement. -/
def ackOps : FederationOps Unit Unit :=
  sampleOps (.ack "a") ackText
    (FederationEnvelope.composeSigningBytes hexText sampleAgent 1 ackText)

/-- An acknowledgement that is published is sealed, and its signing is on the log. -/
theorem ack_published :
    ((new : Federation Unit Unit).step ackOps (.publish () (.ack "a"))).sealedEnvelopes =
        [samplePayloadEnvelope (.ack "a")] ∧
      ((new : Federation Unit Unit).step ackOps (.publish () (.ack "a"))).signed =
        [(sampleAgent, FederationEnvelope.composeSigningBytes hexText sampleAgent 1 ackText)] := by
  have htext : ackOps.texts.payload (.ack "a") = .ok ackText := sample_payload ..
  have hseal : FederationEnvelope.sealPayload ackOps.texts ackOps.ed25519 () (.ack "a") (0 + 1) =
      .ok (samplePayloadEnvelope (.ack "a")) := by
    unfold FederationEnvelope.sealPayload
    rw [htext]
    rfl
  obtain ⟨-, -, -, text, hpayload, hsigning, -⟩ := seal_eq_ok hseal
  cases htext.symm.trans hpayload
  simp only [step, new, FederationPublisher.publish, hseal, hsigning]
  exact ⟨rfl, rfl⟩

/-- An acknowledgement that a peer receives twice. -/
theorem opened_payloads_authentic_ack : ∃ events federation,
    Run ackOps events federation ∧
      federation.received = [sampleEnvelopeBytes ackText, sampleEnvelopeBytes ackText] ∧
      ∃ original ∈ federation.sealedEnvelopes, original.node = sampleAgent ∧ original.seq = 1 ∧
        original.payload = .ack "a" := by
  have hpublished : Run ackOps [.publish () (.ack "a")]
      ((new : Federation Unit Unit).step ackOps (.publish () (.ack "a"))) :=
    .step _ .start fun _ h => nomatch h
  have hsigned :
      (sampleAgent, FederationEnvelope.composeSigningBytes hexText sampleAgent 1 ackText) ∈
      ((new : Federation Unit Unit).step ackOps (.publish () (.ack "a"))).signed := by
    rw [ack_published.2]
    exact List.mem_singleton_self _
  have hfirst := Run.step (.receive (sampleEnvelopeBytes ackText)) hpublished
    fun _ _ => unforged_sample hsigned
  have hrun := Run.step (.receive (sampleEnvelopeBytes ackText)) hfirst
    fun _ _ => unforged_sample hsigned
  refine ⟨_, _, hrun, rfl, ?_⟩
  have hcount : ∀ identity, publishes ([.publish () (.ack "a")] ++
      [.receive (sampleEnvelopeBytes ackText)] ++ [.receive (sampleEnvelopeBytes ackText)] :
        List (FederationEvent Unit Unit)) identity < 2 ^ 64 :=
    fun identity => Nat.lt_of_le_of_lt List.countP_le_length (show 3 < 2 ^ 64 by decide)
  exact (opened_payloads_authentic hex_text_encodes (sample_injective _ _ _) (fun _ _ _ => rfl)
    hrun hcount).1 (sampleEnvelopeBytes ackText) (List.mem_cons_self ..) _ (.ack "a")
    (sample_read _ _ _) (sample_open _ _) ⟨(), rfl⟩

/-- A replicated message that verifies under an honest author has the signing bytes of a body that
the author has signed. When the fields of both have one line, it is that body up to a parent `-`. -/
theorem replicated_was_signed (hhex : HexEncodes ops.texts.hexEncode)
    (hrun : Run ops events federation)
    (hreceived : bytes ∈ federation.received) (hread : ops.texts.read bytes = .ok envelope)
    {message : Message τ} (hpayload : envelope.payload = .replicateMessage message)
    (hverify : message.verify ops.texts.hexEncode ops.toRfc3339 ops.blake3 ops.ed25519.verify =
      .ok ())
    (hhonest : Honest ops message.body.author)
    (htimes : ∀ time other, ops.toRfc3339 time = ops.toRfc3339 other → time = other)
    (hline : ∀ time, SingleLine (ops.toRfc3339 time)) :
    ∃ body ∈ federation.bodies, body.author = message.body.author ∧
      body.signingBytes ops.texts.hexEncode ops.toRfc3339 =
        message.body.signingBytes ops.texts.hexEncode ops.toRfc3339 ∧
      message.id = body.id ops.texts.hexEncode ops.toRfc3339 ops.blake3 ∧
      (body.HasSingleLines → message.body.HasSingleLines →
        message.body = body ∨ body.DashTwins message.body) := by
  have hchecked : message.body.id ops.texts.hexEncode ops.toRfc3339 ops.blake3 = message.id ∧
      ops.ed25519.verify message.body.author
        (message.body.signingBytes ops.texts.hexEncode ops.toRfc3339) message.signature = true := by
    unfold Message.verify at hverify
    split at hverify
    · cases hverify
    · rename_i hid
      split at hverify
      · rename_i hvalid
        exact ⟨not_not.mp hid, hvalid⟩
      · cases hverify
  have htraced := run_traced hrun
  have hsigned := htraced.received bytes hreceived _ _ _ (.message hread hpayload) hhonest
    hchecked.2
  rcases htraced.signed _ _ hsigned with ⟨original, -, -, horiginal⟩ | ⟨body, hmem, hauthor, hbytes⟩
  · -- no envelope has the signing bytes of a message
    unfold FederationEnvelope.signingBytes at horiginal
    cases hjsonText : ops.texts.payload original.payload with
    | error why =>
        rw [hjsonText] at horiginal
        cases horiginal
    | ok text =>
        rw [hjsonText] at horiginal
        exact absurd (Except.ok.inj horiginal) (compose_ne_signing_bytes _ _ _ _ _ _)
  · refine ⟨body, hmem, hauthor, hbytes, ?_, fun hbody hmessage => ?_⟩
    · rw [← hchecked.1, MessageBody.id, MessageBody.id, hbytes]
    · obtain ⟨hlines, hrest⟩ :=
        MessageBody.lines_eq_of_signing_bytes hhex hbody hmessage hline hbytes
      obtain ⟨hsame, htext⟩ := MessageBody.eq_of_lines_eq hhex htimes hlines hrest
      rcases MessageBody.parent_text_eq_iff.mp htext with hparent | hparent
      · left
        rw [hsame, ← hparent]
      · exact Or.inr ⟨hsame, hparent⟩

/-- The post of that identity, signed. -/
def signedPost : Message Unit :=
  ⟨⟨hexText (List.replicate 32 0)⟩, MessageBody.samplePost "general" none "hello",
    sampleSignature⟩

/-- The JSON of its replication. -/
def replicateText : String :=
  "\x7b\"type\":\"replicate_message\",\"id\":\"" ++ signedPost.id.text ++
    "\",\"body\":\x7b\"board\":\"general\",\"parent\":null,\"subject\":\"hello\"," ++
    "\"body\":\"hi\",\"author\":\"" ++ sampleAgent.toHex hexText ++ "\",\"handle\":\"wildcat\"," ++
    "\"created_at\":\"2026-08-27T00:00:00Z\",\"kind\":\"Post\"\x7d,\"signature\":\"" ++
    hexText sampleSignature.toList ++ "\"\x7d"

/-- The sample for a post. -/
def replicateOps : FederationOps Unit Unit :=
  sampleOps (.replicateMessage signedPost) replicateText
    (signedPost.body.signingBytes hexText MessageBody.sampleRfc3339)

/-- The id of the post is that of its body. -/
theorem signed_post_id :
    signedPost.body.id replicateOps.texts.hexEncode replicateOps.toRfc3339 replicateOps.blake3 =
      signedPost.id := by
  show (⟨hexText (Vector.replicate 32 0).toList⟩ : MessageId) = _
  rw [Vector.toList_replicate]
  rfl

/-- Signing the post is logged. -/
theorem post_signed :
    ((new : Federation Unit Unit).step replicateOps (.sign () signedPost.body)).signed =
      [(sampleAgent, signedPost.body.signingBytes hexText MessageBody.sampleRfc3339)] := by
  have hsign : Message.sign replicateOps.texts.hexEncode replicateOps.toRfc3339
      replicateOps.blake3 replicateOps.ed25519 () signedPost.body = .ok signedPost := by
    have hauthor : replicateOps.ed25519.id () = signedPost.body.author := rfl
    unfold Message.sign
    rw [if_neg (not_not.mpr hauthor), signed_post_id]
    rfl
  simp only [step, new, hsign]
  rfl

/-- The post, replicated by somebody else. -/
theorem replicated_was_signed_post : ∃ events federation, Run replicateOps events federation ∧
    sampleEnvelopeBytes replicateText ∈ federation.received ∧
    ∃ body ∈ federation.bodies, body.signingBytes hexText MessageBody.sampleRfc3339 =
      signedPost.body.signingBytes hexText MessageBody.sampleRfc3339 := by
  have hsigned : (sampleAgent, signedPost.body.signingBytes hexText MessageBody.sampleRfc3339) ∈
      ((new : Federation Unit Unit).step replicateOps (.sign () signedPost.body)).signed := by
    rw [post_signed]
    exact List.mem_singleton_self _
  have hrun := Run.step (.receive (sampleEnvelopeBytes replicateText))
    (.step (.sign () signedPost.body) .start fun _ h => nomatch h)
    fun _ _ => unforged_sample hsigned
  have hverify : signedPost.verify replicateOps.texts.hexEncode replicateOps.toRfc3339
      replicateOps.blake3 replicateOps.ed25519.verify = .ok () := by
    unfold Message.verify
    rw [if_neg (not_not.mpr signed_post_id)]
    have hvalid : replicateOps.ed25519.verify signedPost.body.author
        (signedPost.body.signingBytes replicateOps.texts.hexEncode replicateOps.toRfc3339)
        signedPost.signature = true :=
      sample_verify _ _ _
    exact if_pos hvalid
  obtain ⟨body, hmem, -, hbytes, -⟩ := replicated_was_signed hex_text_encodes hrun
    (List.mem_singleton_self _) (sample_read _ _ _) rfl hverify ⟨(), rfl⟩ (fun _ _ _ => rfl)
    fun _ => show SingleLine "2026-08-27T00:00:00+00:00" by decide
  exact ⟨_, _, hrun, List.mem_singleton_self _, body, hmem, hbytes⟩

end Federation

end LatentMesh.Bridge
