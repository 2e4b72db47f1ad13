import LatentMesh.AirCore.EnvelopeCodec
import LatentMesh.Federation.Admission

/-!
# Rules over Air

`transport.rs`: a rule rides a control envelope whose state hash binds its bytes. Nodes that offer
rules of their tables, and admit what they receive, form a network whose messages may be lost,
repeated and reordered. Whatever the order of events and the number of hops, a rule that a node did
not learn itself is the wire image of a rule that some node learned and may share with it
(`federated_rules_traced`). SHA-256 comes from another crate and is the parameter `sha256`.
-/

namespace LatentMesh.Federation

open LatentMesh.AirCore LatentMesh.Gate LatentMesh.Lib

/-- The failures of the transport: those of the rule codec and those of the Air stack. -/
inductive TransportError where
  | rule (error : FederationError)
  | air (error : AirError)
  deriving Repr

section Envelopes

variable (sha256 : List UInt8 → Vector UInt8 32)

/-- `LatentMesh-Federation-Rule-v1`. -/
def ruleHashDomain : List UInt8 := utf8Bytes "LatentMesh-Federation-Rule-v1"

/-- The state hash that a rule is sent under. -/
def ruleStateHash (ruleBytes : List UInt8) : CriticalHash :=
  (sha256 (ruleHashDomain ++ ruleBytes)).take criticalHashBytes

/-- `encode_rule_envelope`. -/
def encodeRuleEnvelope (rule : TransitionRule) (sourceId epoch messageId : UInt32)
    (logicalSequence : UInt64) (priority : UInt8) (signature : Option Signature) :
    Except TransportError SemanticEnvelope :=
  (rule.encodeForTransmission.mapError TransportError.rule).bind fun body =>
    let envelope : SemanticEnvelope :=
      { semanticClass := .control, priority, sourceId, epoch, messageId, logicalSequence
        stateHash := ruleStateHash sha256 body, body, signature }
    (envelope.validate.mapError TransportError.air).bind fun _ => .ok envelope

/-- `decode_rule_envelope`. -/
def decodeRuleEnvelope (envelope : SemanticEnvelope) : Except FederationError TransitionRule :=
  if envelope.semanticClass ≠ .control then .error (.malformed "not a control envelope")
  else if envelope.stateHash ≠ ruleStateHash sha256 envelope.body then
    .error (.malformed "state hash does not bind body")
  else decode envelope.body

/-- May the rule be offered to a peer of the cluster at all? -/
def offerableTo (rule : TransitionRule) (peerCluster : UInt32) : Bool :=
  match rule.scope with
  | .privateScope => false
  | .cluster id => id == peerCluster
  | .globalScope | .unresolved => true

/-- Does the rule tell the peers something that they do not predict already? -/
def shouldTransmit (rule : TransitionRule) (shared : WorldModel) : Bool :=
  match shared.predict rule.pre rule.action with
  | some post => post ≠ rule.post
  | none => true

/-- `should_transmit_to`. -/
def shouldTransmitTo (rule : TransitionRule) (shared : WorldModel) (peerCluster : UInt32) : Bool :=
  if offerableTo rule peerCluster then shouldTransmit rule shared else false

/-- A rule as it arrives, with its confidence in thousandths. -/
def TransitionRule.received (rule : TransitionRule) : TransitionRule :=
  { rule with confidence := ofMilli (milli rule.confidence) }

/-- Another hop changes nothing more. -/
theorem received_received (rule : TransitionRule) : rule.received.received = rule.received := by
  unfold TransitionRule.received
  rw [milli_of_milli (milli_le rule.confidence)]

variable {sha256}

/-- An encoded rule is not private, and its envelope decodes to the rule as it arrives. -/
theorem decode_encode_rule_envelope {rule : TransitionRule} {sourceId epoch messageId : UInt32}
    {logicalSequence : UInt64} {priority : UInt8} {signature : Option Signature}
    {envelope : SemanticEnvelope}
    (h : encodeRuleEnvelope sha256 rule sourceId epoch messageId logicalSequence priority
      signature = .ok envelope) :
    rule.scope ≠ .privateScope ∧ envelope.Valid ∧
      decodeRuleEnvelope sha256 envelope = .ok rule.received := by
  obtain ⟨body, hbody, henvelope⟩ := bind_eq_ok_iff.mp h
  obtain ⟨_, hvalidate, henvelope⟩ := bind_eq_ok_iff.mp henvelope
  cases henvelope
  obtain ⟨hprivate, hshort, rfl⟩ := encode_eq_ok_iff.mp (map_error_eq_ok_iff.mp hbody)
  refine ⟨hprivate, SemanticEnvelope.validate_eq_ok_iff.mp (map_error_eq_ok_iff.mp hvalidate), ?_⟩
  rw [decodeRuleEnvelope, if_neg (not_not_intro rfl), if_neg (not_not_intro rfl)]
  refine decode_eq_ok_iff.mpr ⟨_, _, u32_be_length _, hprivate, fun id hid => ?_, hshort,
    milli_le _, rfl, rfl⟩
  rw [show rule.scope = .cluster id from hid]
  rfl

end Envelopes

/-! ## A network of nodes -/

/-- What does not change at the nodes of a network. -/
structure Sites (ι : Type) where
  text : NumberText
  draws : ι → Draws
  sha256 : List UInt8 → Vector UInt8 32
  cluster : ι → UInt32
  sourceId : ι → UInt32

/-- The tables of the nodes, and every message that was ever sent. -/
structure Network (ι : Type) where
  models : ι → WorldModel
  air : List (List UInt8)

/-- Nodes without rules and nothing sent. -/
def Network.start {ι : Type} : Network ι := ⟨fun _ => .new, []⟩

/-- The fields of an envelope that the sender chooses. -/
structure EnvelopeFields where
  epoch : UInt32
  messageId : UInt32
  logicalSequence : UInt64
  priority : UInt8
  signature : Option Signature

/-- The events of a network. -/
inductive NetworkEvent (ι : Type) where
  /-- A node installs a rule that it learned from its own observations. -/
  | learn (node : ι) (rule : TransitionRule)
  | forget (node : ι) (pre action : String)
  | observe (node : ι) (transition : Transition)
  /-- A node offers a rule of its table, where the peers are held to share the given model. -/
  | offer (node peer : ι) (rule : TransitionRule) (shared : WorldModel) (fields : EnvelopeFields)
  /-- A node receives one of the messages, which may be received again. -/
  | deliver (node : ι) (message : Nat) (config : AdmissionConfig)

section Networks

variable {ι : Type} (sites : Sites ι)

/-- The bytes of an offer. -/
def offerBytes (node : ι) (rule : TransitionRule) (fields : EnvelopeFields) :
    Except TransportError (List UInt8) :=
  (encodeRuleEnvelope sites.sha256 rule (sites.sourceId node) fields.epoch fields.messageId
      fields.logicalSequence fields.priority fields.signature).bind fun envelope =>
    envelope.encode.mapError TransportError.air

/-- The rule in a message. -/
def ruleOfBytes (bytes : List UInt8) : Except TransportError TransitionRule :=
  ((SemanticEnvelope.decode bytes).mapError TransportError.air).bind fun envelope =>
    (decodeRuleEnvelope sites.sha256 envelope).mapError TransportError.rule

/-- A received message: its rule is a candidate, if it has one. -/
def receiveBytes (node : ι) (model : WorldModel) (bytes : List UInt8) (config : AdmissionConfig) :
    WorldModel :=
  match ruleOfBytes sites bytes with
  | .ok candidate =>
      receiveCandidate sites.text (sites.draws node) (sites.cluster node) model candidate config
  | .error _ => model

/-- A rule that the node learned itself, or the wire image of one that some node learned and that
may be shared with the node. -/
def Known (events : List (NetworkEvent ι)) (node : ι) (rule : TransitionRule) : Prop :=
  .learn node rule ∈ events ∨
    (∃ source origin, .learn source origin ∈ events ∧ rule = origin.received) ∧
      rule.scope ≠ .privateScope ∧ ∀ id, rule.scope = .cluster id → id = sites.cluster node

/-- The message carries a rule that some node learned, and that is not private. -/
def Carried (events : List (NetworkEvent ι)) (bytes : List UInt8) : Prop :=
  ∃ source origin, .learn source origin ∈ events ∧ origin.scope ≠ .privateScope ∧
    ruleOfBytes sites bytes = .ok origin.received

/-- What holds after the given events. -/
structure Traced (events : List (NetworkEvent ι)) (net : Network ι) : Prop where
  known : ∀ node, ∀ rule ∈ (net.models node).installed, Known sites events node rule
  carried : ∀ bytes ∈ net.air, Carried sites events bytes

variable {sites} {events : List (NetworkEvent ι)} {net : Network ι}

/-- What a node knew it still knew. -/
theorem Known.append {node : ι} {rule : TransitionRule} (h : Known sites events node rule)
    (event : NetworkEvent ι) : Known sites (events ++ [event]) node rule := by
  rcases h with hlearned | ⟨⟨source, origin, hlearned, hrule⟩, hscope⟩
  · exact Or.inl (List.mem_append_left _ hlearned)
  · exact Or.inr ⟨⟨source, origin, List.mem_append_left _ hlearned, hrule⟩, hscope⟩

/-- What was carried was carried. -/
theorem Carried.append {bytes : List UInt8} (h : Carried sites events bytes)
    (event : NetworkEvent ι) : Carried sites (events ++ [event]) bytes := by
  obtain ⟨source, origin, hlearned, hrest⟩ := h
  exact ⟨source, origin, List.mem_append_left _ hlearned, hrest⟩

/-- One event more, with nothing changed. -/
theorem Traced.append (h : Traced sites events net) (event : NetworkEvent ι) :
    Traced sites (events ++ [event]) net :=
  ⟨fun node rule hrule => (h.known node rule hrule).append event,
    fun bytes hbytes => (h.carried bytes hbytes).append event⟩

/-- The rule of an offer comes back from its bytes. -/
theorem rule_of_offer_bytes {node : ι} {rule : TransitionRule} {fields : EnvelopeFields}
    {bytes : List UInt8} (h : offerBytes sites node rule fields = .ok bytes) :
    rule.scope ≠ .privateScope ∧ ruleOfBytes sites bytes = .ok rule.received := by
  obtain ⟨envelope, hencode, hbytes⟩ := bind_eq_ok_iff.mp h
  obtain ⟨hprivate, hvalid, hdecode⟩ := decode_encode_rule_envelope hencode
  refine ⟨hprivate, ?_⟩
  have hwire : envelope.encode = .ok envelope.wire :=
    SemanticEnvelope.encode_eq_ok_iff.mpr ⟨hvalid, rfl⟩
  rw [hwire] at hbytes
  cases hbytes
  rw [ruleOfBytes, SemanticEnvelope.decode_wire hvalid]
  show (decodeRuleEnvelope sites.sha256 envelope).mapError _ = _
  rw [hdecode]
  rfl

/-- A rule of a table, sent on, is still the wire image of a rule that was learned. -/
theorem Known.origin {node : ι} {rule : TransitionRule} (h : Known sites events node rule) :
    ∃ source origin, .learn source origin ∈ events ∧ origin.scope = rule.scope ∧
      rule.received = origin.received := by
  rcases h with hlearned | ⟨⟨source, origin, hlearned, rfl⟩, -⟩
  · exact ⟨node, rule, hlearned, rfl, rfl⟩
  · exact ⟨source, origin, hlearned, rfl, received_received origin⟩

/-- What a node receives is admitted only when it may be shared with the node. -/
theorem known_receive_bytes (h : Traced sites events net) {node : ι} {bytes : List UInt8}
    (hbytes : bytes ∈ net.air) (config : AdmissionConfig) :
    ∀ rule ∈ (receiveBytes sites node (net.models node) bytes config).installed,
      Known sites events node rule := by
  intro rule hrule
  obtain ⟨source, origin, hlearned, -, hrule'⟩ := h.carried bytes hbytes
  rw [receiveBytes, hrule'] at hrule
  dsimp only at hrule
  unfold receiveCandidate at hrule
  split at hrule
  · rename_i gain worstP hverdict
    rcases WorldModel.mem_installed_install hrule with rfl | hold
    · obtain ⟨hscope, hcluster⟩ :=
        scope_refusal_eq_none_iff.mp (validate_candidate_admitted hverdict).1
      exact Or.inr ⟨⟨source, origin, hlearned, rfl⟩, hscope, hcluster⟩
    · exact h.known node rule hold
  · exact h.known node rule hrule

variable [DecidableEq ι]

/-- A node with another model. -/
def Network.setModel (net : Network ι) (node : ι) (model : WorldModel) : Network ι :=
  { net with models := Function.update net.models node model }

/-- An event of the network. -/
def stepNetwork (sites : Sites ι) (net : Network ι) : NetworkEvent ι → Network ι
  | .learn node rule => net.setModel node ((net.models node).install rule)
  | .forget node pre action => net.setModel node ((net.models node).remove pre action)
  | .observe node transition => net.setModel node ((net.models node).recordHoldout transition)
  | .offer node peer rule shared fields =>
      if rule ∈ (net.models node).installed ∧ shouldTransmitTo rule shared (sites.cluster peer) then
        match offerBytes sites node rule fields with
        | .ok bytes => { net with air := net.air ++ [bytes] }
        | .error _ => net
      else net
  | .deliver node message config =>
      match net.air[message]? with
      | some bytes => net.setModel node (receiveBytes sites node (net.models node) bytes config)
      | none => net

/-- A change of one table is traced when the new table is. -/
theorem Traced.set_model (h : Traced sites events net) {node : ι} {model : WorldModel}
    (hmodel : ∀ rule ∈ model.installed, Known sites events node rule) :
    Traced sites events (net.setModel node model) := by
  refine ⟨fun other rule hrule => ?_, h.carried⟩
  by_cases hnode : other = node
  · subst hnode
    exact hmodel rule (by simpa [Network.setModel] using hrule)
  · exact h.known other rule (by simpa [Network.setModel, hnode] using hrule)

/-- Every event keeps that the rules are traced. -/
theorem Traced.step (h : Traced sites events net) (event : NetworkEvent ι) :
    Traced sites (events ++ [event]) (stepNetwork sites net event) := by
  have happend := h.append event
  cases event with
  | learn node rule =>
      refine happend.set_model fun found hfound => ?_
      rcases WorldModel.mem_installed_install hfound with rfl | hold
      · exact Or.inl (List.mem_append_right _ (List.mem_singleton_self _))
      · exact happend.known node found hold
  | forget node pre action =>
      exact happend.set_model fun found hfound =>
        happend.known node found (WorldModel.mem_installed_remove hfound)
  | observe node transition => exact happend.set_model (happend.known node)
  | offer node peer rule shared fields =>
      rw [stepNetwork]
      split
      · rename_i hoffer
        split
        · rename_i bytes hbytes
          obtain ⟨hprivate, hrule⟩ := rule_of_offer_bytes hbytes
          obtain ⟨source, origin, hlearned, hscope, hreceived⟩ :=
            (happend.known node rule hoffer.1).origin
          refine ⟨happend.known, fun sent hsent => ?_⟩
          rcases List.mem_append.mp hsent with hold | hnew
          · exact happend.carried sent hold
          · rw [List.mem_singleton.mp hnew]
            exact ⟨source, origin, hlearned, hscope ▸ hprivate, hreceived ▸ hrule⟩
        · exact happend
      · exact happend
  | deliver node message config =>
      rw [stepNetwork]
      split
      · rename_i bytes hbytes
        exact happend.set_model
          (known_receive_bytes happend (List.mem_of_getElem? hbytes) config)
      · exact happend

/-- After any events of a network of nodes, in any order and with any messages lost or repeated, a
rule in the table of a node is one that the node learned itself, or it is the wire image of a rule
that some node learned, is not private and is not scoped to another cluster; and no message carries
a private rule. -/
theorem federated_rules_traced (sites : Sites ι) (events : List (NetworkEvent ι)) :
    (∀ node, ∀ rule ∈ ((events.foldl (stepNetwork sites) .start).models node).installed,
        Known sites events node rule) ∧
      ∀ bytes ∈ (events.foldl (stepNetwork sites) .start).air, Carried sites events bytes := by
  have htraced : Traced sites events (events.foldl (stepNetwork sites) .start) := by
    induction events using List.reverseRecOn with
    | nil => exact ⟨fun node rule hrule => (by cases hrule), fun bytes hbytes => (by cases hbytes)⟩
    | append_singleton events event ih =>
        rw [List.foldl_append]
        exact ih.step event
  exact ⟨htraced.known, htraced.carried⟩

end Networks

end LatentMesh.Federation
