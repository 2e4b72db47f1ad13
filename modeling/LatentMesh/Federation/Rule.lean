import LatentMesh.Federation.Confidence
import LatentMesh.Lib.Bytes
import LatentMesh.Lib.Guards
import LatentMesh.Lib.Utf8

/-!
# Federated rules

The binary codec of `rule.rs`. A rule comes back with its confidence in thousandths, but the decoder
reads the four cluster bytes of a rule without a cluster and does not check them: such bytes are
encoded again only when they are zero (`rule_codec_iff`).
-/

namespace LatentMesh.Federation

open LatentMesh.Lib LatentMesh.Core

/-- `MAX_RULE_BYTES`. -/
def maxRuleBytes : Nat := 200

/-- `LMFR`. -/
def ruleMagic : List UInt8 := [0x4c, 0x4d, 0x46, 0x52]

/-- `RULE_VERSION`. -/
def ruleVersion : UInt8 := 1

/-- `FIXED_HEADER_BYTES`. -/
def fixedHeaderBytes : Nat := 4 + 1 + 1 + 4 + 4 + 2 + 3

/-- `MAX_LABEL_BYTES`. -/
def maxLabelBytes : Nat := 48

/-- Who a rule may be shared with. -/
inductive RuleScope where
  | globalScope
  | cluster (id : UInt32)
  | privateScope
  | unresolved
  deriving DecidableEq, Repr

namespace RuleScope

/-- The code of a scope. -/
def code : RuleScope → UInt8
  | globalScope => 0
  | cluster _ => 1
  | privateScope => 2
  | unresolved => 3

/-- The cluster that is written for a scope. -/
def clusterId : RuleScope → UInt32
  | cluster id => id
  | _ => 0

end RuleScope

/-- Why a rule is refused. -/
inductive FederationError where
  | privateRule
  | tooLarge (bytes : Nat)
  | malformed (why : String)
  deriving DecidableEq, Repr

/-- A rule: what an action leads to. -/
structure TransitionRule where
  pre : String
  action : String
  post : String
  support : UInt32
  confidence : Binary32
  scope : RuleScope
  deriving DecidableEq

namespace TransitionRule

/-- The labels of a rule as bytes. -/
def labels (self : TransitionRule) : List (List UInt8) :=
  [utf8Bytes self.pre, utf8Bytes self.action, utf8Bytes self.post]

/-- A rule with the given cluster bytes and thousandths. -/
def wire (self : TransitionRule) (cluster : List UInt8) (confidenceMilli : UInt16) : List UInt8 :=
  ruleMagic ++ ([ruleVersion, self.scope.code] ++ (cluster ++ (u32Be self.support ++
    (u16Be confidenceMilli ++ (self.labels.map (fun label => UInt8.ofNat label.length) ++
      self.labels.flatten)))))

/-- `TransitionRule::encode_for_transmission`. -/
def encodeForTransmission (self : TransitionRule) : Except FederationError (List UInt8) :=
  if self.scope = .privateScope then .error .privateRule
  else
    match self.labels.find? fun label => maxLabelBytes < label.length with
    | some label => .error (.tooLarge label.length)
    | none =>
        let total := fixedHeaderBytes + (self.labels.map List.length).sum
        if maxRuleBytes < total then .error (.tooLarge total)
        else .ok (self.wire (u32Be self.scope.clusterId) (milli self.confidence))

end TransitionRule

/-- The scope of a code. -/
def scopeOf (code : UInt8) (cluster : UInt32) : Except FederationError RuleScope :=
  if code = 0 then .ok .globalScope
  else if code = 1 then .ok (.cluster cluster)
  else if code = 2 then .error (.malformed "private rule on the wire")
  else if code = 3 then .ok .unresolved
  else .error (.malformed "unknown scope")

/-- A label is read as UTF-8. -/
def labelOf (bytes : List UInt8) : Except FederationError String :=
  match fromUtf8 bytes with
  | some label => .ok label
  | none => .error (.malformed "label not utf-8")

/-- `TransitionRule::decode`. The input is too short for a header when it has no 19 bytes. -/
def decode (input : List UInt8) : Except FederationError TransitionRule :=
  if maxRuleBytes < input.length then .error (.tooLarge input.length)
  else
    match input with
    | m₀ :: m₁ :: m₂ :: m₃ :: version :: code :: c₀ :: c₁ :: c₂ :: c₃ :: s₀ :: s₁ :: s₂ :: s₃ ::
        k₀ :: k₁ :: l₀ :: l₁ :: l₂ :: body =>
        if [m₀, m₁, m₂, m₃] ≠ ruleMagic then .error (.malformed "bad magic")
        else if version ≠ ruleVersion then .error (.malformed "unsupported version")
        else
          (scopeOf code (u32OfBe [c₀, c₁, c₂, c₃])).bind fun scope =>
            let confidenceMilli := u16OfBe [k₀, k₁]
            if 1000 < confidenceMilli then .error (.malformed "confidence above 1.0")
            else if maxLabelBytes < l₀.toNat ∨ maxLabelBytes < l₁.toNat ∨
                maxLabelBytes < l₂.toNat then
              .error (.malformed "label too long")
            else if input.length ≠ fixedHeaderBytes + (l₀.toNat + l₁.toNat + l₂.toNat) then
              .error (.malformed "length mismatch")
            else
              (labelOf (body.take l₀.toNat)).bind fun pre =>
              (labelOf ((body.drop l₀.toNat).take l₁.toNat)).bind fun action =>
              (labelOf (((body.drop l₀.toNat).drop l₁.toNat).take l₂.toNat)).bind fun post =>
                .ok ⟨pre, action, post, u32OfBe [s₀, s₁, s₂, s₃], ofMilli confidenceMilli, scope⟩
    | _ => .error (.malformed "truncated header")

variable {rule : TransitionRule} {bytes input cluster : List UInt8} {confidenceMilli : UInt16}

/-! ## What the encoder accepts -/

/-- The labels fit their length bytes. -/
def TransitionRule.ShortLabels (rule : TransitionRule) : Prop :=
  ∀ label ∈ rule.labels, label.length ≤ maxLabelBytes

/-- A rule that is not private and has short labels, and no other, is encoded as its wire. -/
theorem encode_eq_ok_iff :
    rule.encodeForTransmission = .ok bytes ↔
      rule.scope ≠ .privateScope ∧ rule.ShortLabels ∧
        bytes = rule.wire (u32Be rule.scope.clusterId) (milli rule.confidence) := by
  unfold TransitionRule.encodeForTransmission
  rw [guard_eq_ok_iff]
  refine and_congr_right fun _ => ?_
  cases hfind : rule.labels.find? fun label => maxLabelBytes < label.length with
  | some label =>
      refine iff_of_false (fun h => nomatch h) fun h => ?_
      have hlong := List.find?_some hfind
      have hshort := h.1 label (List.mem_of_find?_eq_some hfind)
      rw [decide_eq_true_eq] at hlong
      omega
  | none =>
      -- three short labels never reach the limit of a rule
      have hshort : rule.ShortLabels := by
        intro label hmem
        have hnot := List.find?_eq_none.mp hfind label hmem
        rw [decide_eq_true_eq] at hnot
        omega
      have htotal : ¬ maxRuleBytes < fixedHeaderBytes + (rule.labels.map List.length).sum := by
        have hpre := hshort (utf8Bytes rule.pre) List.mem_cons_self
        have haction := hshort (utf8Bytes rule.action)
          (List.mem_cons_of_mem _ List.mem_cons_self)
        have hpost := hshort (utf8Bytes rule.post)
          (List.mem_cons_of_mem _ (List.mem_cons_of_mem _ List.mem_cons_self))
        unfold maxLabelBytes at hpre haction hpost
        simp only [TransitionRule.labels, List.map_cons, List.map_nil, List.sum_cons,
          List.sum_nil, maxRuleBytes, fixedHeaderBytes]
        omega
      dsimp only
      rw [if_neg htotal, Except.ok.injEq, and_iff_right hshort]
      exact eq_comm

/-! ## What the decoder accepts -/

/-- The bytes of a label tell the label. -/
theorem label_of_eq_ok_iff {label : String} :
    labelOf bytes = .ok label ↔ utf8Bytes label = bytes := by
  rw [← from_utf8_eq_some_iff, labelOf]
  cases fromUtf8 bytes with
  | none => exact iff_of_false (fun h => nomatch h) fun h => nomatch h
  | some found => rw [Except.ok.injEq, Option.some.injEq]

/-- The codes of scopes, with the cluster that is read. -/
theorem scope_of_eq_ok_iff {code : UInt8} {scope : RuleScope} (hcluster : cluster.length = 4) :
    scopeOf code (u32OfBe cluster) = .ok scope ↔
      code = scope.code ∧ scope ≠ .privateScope ∧
        ∀ id, scope = .cluster id → cluster = u32Be id := by
  unfold scopeOf
  constructor
  · intro h
    split at h
    · cases h
      exact ⟨‹_›, (fun h => nomatch h), (fun _ h => nomatch h)⟩
    split at h
    · cases h
      refine ⟨‹_›, (fun h => nomatch h), fun id hid => ?_⟩
      cases hid
      exact (u32_be_u32_of_be hcluster).symm
    split at h
    · cases h
    split at h
    · cases h
      exact ⟨‹_›, (fun h => nomatch h), (fun _ h => nomatch h)⟩
    · cases h
  · rintro ⟨rfl, hprivate, hid⟩
    cases scope with
    | globalScope => rfl
    | cluster id => rw [hid id rfl, u32_of_be_u32_be]; rfl
    | privateScope => exact absurd rfl hprivate
    | unresolved => rfl

/-- The header and the labels of an accepted input. -/
theorem decode_header_iff {m₀ m₁ m₂ m₃ version code c₀ c₁ c₂ c₃ s₀ s₁ s₂ s₃ k₀ k₁ l₀ l₁ l₂ : UInt8}
    {body : List UInt8} :
    decode (m₀ :: m₁ :: m₂ :: m₃ :: version :: code :: c₀ :: c₁ :: c₂ :: c₃ :: s₀ :: s₁ :: s₂ ::
        s₃ :: k₀ :: k₁ :: l₀ :: l₁ :: l₂ :: body) = .ok rule ↔
      [m₀, m₁, m₂, m₃] = ruleMagic ∧ version = ruleVersion ∧
      scopeOf code (u32OfBe [c₀, c₁, c₂, c₃]) = .ok rule.scope ∧
      rule.support = u32OfBe [s₀, s₁, s₂, s₃] ∧
      (u16OfBe [k₀, k₁] ≤ 1000 ∧ rule.confidence = ofMilli (u16OfBe [k₀, k₁])) ∧
      (l₀.toNat ≤ maxLabelBytes ∧ l₁.toNat ≤ maxLabelBytes ∧ l₂.toNat ≤ maxLabelBytes) ∧
      body.length = l₀.toNat + l₁.toNat + l₂.toNat ∧
      utf8Bytes rule.pre = body.take l₀.toNat ∧
      utf8Bytes rule.action = (body.drop l₀.toNat).take l₁.toNat ∧
      utf8Bytes rule.post = ((body.drop l₀.toNat).drop l₁.toNat).take l₂.toNat := by
  have hlength : (m₀ :: m₁ :: m₂ :: m₃ :: version :: code :: c₀ :: c₁ :: c₂ :: c₃ :: s₀ :: s₁ ::
      s₂ :: s₃ :: k₀ :: k₁ :: l₀ :: l₁ :: l₂ :: body).length = body.length + 19 := rfl
  unfold decode
  rw [hlength]
  dsimp only
  rw [guard_eq_ok_iff, guard_eq_ok_iff, guard_eq_ok_iff, bind_eq_ok_iff, not_not, not_not]
  constructor
  · rintro ⟨-, hmagic, hversion, scope, hscope, h⟩
    rw [guard_eq_ok_iff, guard_eq_ok_iff, guard_eq_ok_iff, bind_eq_ok_iff, not_not,
      UInt16.not_lt] at h
    obtain ⟨hmilli, hlabels, hbody, pre, hpre, h⟩ := h
    rw [bind_eq_ok_iff] at h
    obtain ⟨action, haction, h⟩ := h
    rw [bind_eq_ok_iff] at h
    obtain ⟨post, hpost, h⟩ := h
    cases h
    simp only [not_or, not_lt] at hlabels
    unfold fixedHeaderBytes at hbody
    exact ⟨hmagic, hversion, hscope, rfl, ⟨hmilli, rfl⟩, hlabels, by omega,
      label_of_eq_ok_iff.mp hpre, label_of_eq_ok_iff.mp haction, label_of_eq_ok_iff.mp hpost⟩
  · rintro ⟨hmagic, hversion, hscope, hsupport, ⟨hmilli, hconfidence⟩, hlabels, hbody, hpre,
      haction, hpost⟩
    -- the limit of the input follows from those of the labels
    have hshort : ¬ maxRuleBytes < body.length + 19 := by
      unfold maxLabelBytes at hlabels
      unfold maxRuleBytes
      omega
    refine ⟨hshort, hmagic, hversion, rule.scope, hscope, ?_⟩
    rw [guard_eq_ok_iff, guard_eq_ok_iff, guard_eq_ok_iff, bind_eq_ok_iff, not_not,
      UInt16.not_lt]
    refine ⟨hmilli, by simp only [not_or, not_lt]; exact hlabels, ?_, rule.pre,
      label_of_eq_ok_iff.mpr hpre, ?_⟩
    · unfold fixedHeaderBytes
      omega
    · rw [bind_eq_ok_iff]
      refine ⟨rule.action, label_of_eq_ok_iff.mpr haction, ?_⟩
      rw [bind_eq_ok_iff]
      refine ⟨rule.post, label_of_eq_ok_iff.mpr hpost, ?_⟩
      rw [← hsupport, ← hconfidence]

/-- What is decoded has a whole header. -/
theorem exists_header (h : decode input = .ok rule) :
    ∃ m₀ m₁ m₂ m₃ version code c₀ c₁ c₂ c₃ s₀ s₁ s₂ s₃ k₀ k₁ l₀ l₁ l₂ body,
      input = m₀ :: m₁ :: m₂ :: m₃ :: version :: code :: c₀ :: c₁ :: c₂ :: c₃ :: s₀ :: s₁ :: s₂ ::
        s₃ :: k₀ :: k₁ :: l₀ :: l₁ :: l₂ :: body := by
  unfold decode at h
  obtain ⟨-, h⟩ := guard_eq_ok_iff.mp h
  split at h
  · exact ⟨_, _, _, _, _, _, _, _, _, _, _, _, _, _, _, _, _, _, _, _, rfl⟩
  · cases h

/-- Three labels behind their lengths. -/
theorem labels_of_body {body first second third : List UInt8} {l₀ l₁ l₂ : UInt8}
    (hbody : body.length = l₀.toNat + l₁.toNat + l₂.toNat)
    (hfirst : first = body.take l₀.toNat)
    (hsecond : second = (body.drop l₀.toNat).take l₁.toNat)
    (hthird : third = ((body.drop l₀.toNat).drop l₁.toNat).take l₂.toNat) :
    first.length = l₀.toNat ∧ second.length = l₁.toNat ∧ third.length = l₂.toNat ∧
      first ++ (second ++ third) = body := by
  subst hfirst hsecond hthird
  refine ⟨by rw [List.length_take]; omega, by rw [List.length_take, List.length_drop]; omega,
    by rw [List.length_take, List.length_drop, List.length_drop]; omega, ?_⟩
  have hall : ((body.drop l₀.toNat).drop l₁.toNat).length ≤ l₂.toNat := by
    rw [List.length_drop, List.length_drop]
    omega
  rw [List.take_of_length_le hall, List.take_append_drop, List.take_append_drop]

/-- The labels of a rule are taken apart again. -/
theorem body_of_labels (first second third : List UInt8) :
    (first ++ (second ++ third)).take first.length = first ∧
      ((first ++ (second ++ third)).drop first.length).take second.length = second ∧
      (((first ++ (second ++ third)).drop first.length).drop second.length).take third.length =
        third := by
  rw [List.take_left, List.drop_left, List.take_left, List.drop_left, List.take_length]
  exact ⟨rfl, rfl, rfl⟩

/-- The labels are short when each is. -/
theorem short_labels_iff :
    rule.ShortLabels ↔ (utf8Bytes rule.pre).length ≤ maxLabelBytes ∧
      (utf8Bytes rule.action).length ≤ maxLabelBytes ∧
        (utf8Bytes rule.post).length ≤ maxLabelBytes := by
  unfold TransitionRule.ShortLabels TransitionRule.labels
  simp only [List.forall_mem_cons, List.not_mem_nil, false_implies, implies_true, and_true]

/-- The decoder accepts the wire forms of a rule: with any cluster bytes if it has no cluster. -/
theorem decode_eq_ok_iff :
    decode input = .ok rule ↔ ∃ cluster confidenceMilli, cluster.length = 4 ∧
      rule.scope ≠ .privateScope ∧ (∀ id, rule.scope = .cluster id → cluster = u32Be id) ∧
      rule.ShortLabels ∧ confidenceMilli ≤ 1000 ∧ rule.confidence = ofMilli confidenceMilli ∧
      input = rule.wire cluster confidenceMilli := by
  constructor
  · intro h
    obtain ⟨m₀, m₁, m₂, m₃, version, code, c₀, c₁, c₂, c₃, s₀, s₁, s₂, s₃, k₀, k₁, l₀, l₁, l₂, body,
      rfl⟩ := exists_header h
    obtain ⟨hmagic, rfl, hscope, hsupport, ⟨hmilli, hconfidence⟩, hlabels, hbody, hpre, haction,
      hpost⟩ := decode_header_iff.mp h
    obtain ⟨rfl, hprivate, hid⟩ := (scope_of_eq_ok_iff rfl).mp hscope
    obtain ⟨hl₀, hl₁, hl₂, hjoin⟩ := labels_of_body hbody hpre haction hpost
    refine ⟨[c₀, c₁, c₂, c₃], u16OfBe [k₀, k₁], rfl, hprivate, hid, ?_, hmilli, hconfidence, ?_⟩
    · rw [short_labels_iff, hl₀, hl₁, hl₂]
      exact hlabels
    · rw [TransitionRule.wire, hsupport, u32_be_u32_of_be rfl, u16_be_u16_of_be rfl, ← hmagic]
      simp only [TransitionRule.labels, List.map_cons, List.map_nil, hl₀, hl₁, hl₂,
        UInt8.ofNat_toNat, List.flatten_cons, List.flatten_nil, List.append_nil, hjoin,
        List.cons_append, List.nil_append]
  · rintro ⟨cluster, confidenceMilli, hcluster, hprivate, hid, hshort, hmilli, hconfidence, rfl⟩
    rw [short_labels_iff] at hshort
    obtain ⟨c₀, c₁, c₂, c₃, rfl⟩ := List.length_eq_four.mp hcluster
    obtain ⟨s₀, s₁, s₂, s₃, hsupport⟩ := List.length_eq_four.mp (u32_be_length rule.support)
    obtain ⟨k₀, k₁, hconfidenceMilli⟩ := List.length_eq_two.mp (u16_be_length confidenceMilli)
    rw [TransitionRule.wire, hsupport, hconfidenceMilli]
    have hsmall : ∀ label : List UInt8, label.length ≤ maxLabelBytes →
        (UInt8.ofNat label.length).toNat = label.length := by
      intro label hlabel
      unfold maxLabelBytes at hlabel
      exact UInt8.toNat_ofNat_of_lt' (show label.length < 256 by omega)
    have hpre := hsmall _ hshort.1
    have haction := hsmall _ hshort.2.1
    have hpost := hsmall _ hshort.2.2
    obtain ⟨hfirst, hsecond, hthird⟩ := body_of_labels (utf8Bytes rule.pre)
      (utf8Bytes rule.action) (utf8Bytes rule.post)
    refine decode_header_iff.mpr ⟨rfl, rfl, (scope_of_eq_ok_iff rfl).mpr ⟨rfl, hprivate, hid⟩,
      ?_, ?_, ?_, ?_, ?_⟩
    · rw [← hsupport, u32_of_be_u32_be]
    · rw [← hconfidenceMilli, u16_of_be_u16_be]
      exact ⟨hmilli, hconfidence⟩
    · rw [hpre, haction, hpost]
      exact hshort
    · rw [hpre, haction, hpost]
      show (utf8Bytes rule.pre ++ (utf8Bytes rule.action ++ (utf8Bytes rule.post ++ []))).length = _
      rw [List.append_nil, List.length_append, List.length_append, Nat.add_assoc]
    · rw [hpre, haction, hpost]
      simp only [TransitionRule.labels, List.flatten_cons, List.flatten_nil, List.append_nil]
      exact ⟨hfirst.symm, hsecond.symm, hthird.symm⟩

/-! ## Unique encodings -/

/-- The wire tells the cluster bytes. -/
theorem wire_cluster_inj {cluster' : List UInt8} (h : cluster.length = 4)
    (h' : cluster'.length = 4) :
    rule.wire cluster confidenceMilli = rule.wire cluster' confidenceMilli ↔
      cluster = cluster' := by
  constructor
  · intro heq
    have hrest := List.append_cancel_left (List.append_cancel_left heq)
    exact (List.append_inj hrest (h.trans h'.symm)).1
  · rintro rfl
    rfl

/-- The cluster bytes of an input. -/
def clusterBytes (input : List UInt8) : List UInt8 := (input.drop 6).take 4

/-- An encoding gives the rule back with its confidence in thousandths just when its nearest
thousandth lies in the unit interval, and an accepted input is the encoding of its rule just when it
has the scope code of a cluster or cluster bytes that are zero. -/
theorem rule_codec_iff (rule : TransitionRule) (input : List UInt8) :
    (∀ bytes, rule.encodeForTransmission = .ok bytes →
      (decode bytes = .ok { rule with confidence := thousandths rule.confidence } ↔
        NearUnit rule.confidence)) ∧
    ∀ decoded, decode input = .ok decoded →
      (decoded.encodeForTransmission = .ok input ↔
        input[5]? = some 1 ∨ clusterBytes input = [0, 0, 0, 0]) := by
  constructor
  · intro bytes hencode
    obtain ⟨hprivate, hshort, rfl⟩ := encode_eq_ok_iff.mp hencode
    have hdecode : decode (rule.wire (u32Be rule.scope.clusterId) (milli rule.confidence)) =
        .ok { rule with confidence := ofMilli (milli rule.confidence) } := by
      refine decode_eq_ok_iff.mpr ⟨_, _, u32_be_length _, hprivate, fun id hid => ?_, hshort,
        milli_le _, rfl, rfl⟩
      rw [show rule.scope = .cluster id from hid]
      rfl
    rw [hdecode, ← of_milli_milli_iff]
    constructor
    · intro h
      exact congrArg TransitionRule.confidence (Except.ok.inj h)
    · intro h
      rw [h]
  · intro decoded hdecode
    obtain ⟨cluster, confidenceMilli, hcluster, hprivate, hid, hshort, hmilli, hconfidence, rfl⟩ :=
      decode_eq_ok_iff.mp hdecode
    rw [encode_eq_ok_iff, and_iff_right hprivate, and_iff_right hshort, hconfidence,
      milli_of_milli hmilli, wire_cluster_inj hcluster (u32_be_length _)]
    have hcode : (decoded.wire cluster confidenceMilli)[5]? = some decoded.scope.code := rfl
    have hbytes : clusterBytes (decoded.wire cluster confidenceMilli) = cluster :=
      List.take_left' hcluster
    rw [hcode, hbytes]
    -- a rule without a cluster is encoded with zeros, and was accepted with any bytes
    cases hscope : decoded.scope with
    | cluster id => exact iff_of_true (hid id hscope) (Or.inl rfl)
    | privateScope => exact absurd hscope hprivate
    | globalScope => exact (or_iff_right fun h => (by cases h)).symm
    | unresolved => exact (or_iff_right fun h => (by cases h)).symm

/-- A rule for everyone with the cluster bytes of cluster 7. -/
def strayCluster : List UInt8 :=
  ruleMagic ++ [ruleVersion, 0, 0, 0, 0, 7, 0, 0, 0, 0, 0, 0, 0, 0, 0]

/-- It is accepted, and is not the encoding of the rule that it is accepted as. -/
theorem stray_cluster_accepted :
    ∃ decoded, decode strayCluster = .ok decoded ∧
      decoded.encodeForTransmission ≠ .ok strayCluster := by
  have hempty : utf8Bytes "" = [] := rfl
  have hdecode : decode strayCluster =
      .ok ⟨"", "", "", 0, ofMilli 0, .globalScope⟩ :=
    decode_header_iff.mpr ⟨rfl, rfl, rfl, rfl, ⟨by decide, rfl⟩, by decide, rfl, hempty, hempty,
      hempty⟩
  refine ⟨_, hdecode, fun h => ?_⟩
  have hsame := congrArg clusterBytes (encode_eq_ok_iff.mp h).2.2
  exact absurd hsame (by decide)

end LatentMesh.Federation
