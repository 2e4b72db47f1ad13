import LatentMesh.Federation.Model
import LatentMesh.Gate.Causal

/-!
# Admission of a peer's rule

`admission.rs`: a candidate rule is compared with three controls on the held-out log. Scores are
exact numbers, and the random generator is given by what it answers for each seed. A candidate that
is admitted predicts more of the log than the table did (`validate_candidate_admitted`), by just the
gain that its verdict reports, so a node's log bounds how many rules it can ever admit
(`admissions_account`).
-/

namespace LatentMesh.Federation

open LatentMesh.Gate LatentMesh.Lib

/-- The parameters of the admission. -/
structure AdmissionConfig where
  /-- The significance level of each control. -/
  alpha : ℚ
  resamples : Nat
  seed : UInt64
  minHoldout : Nat

/-- `AdmissionConfig::default`. -/
def AdmissionConfig.default : AdmissionConfig where
  alpha := 1 / 20
  resamples := 1000
  seed := 0x4c4d46454431
  minHoldout := 8

/-- The verdict on a rule. A rejection names the control that failed. -/
inductive RuleVerdict where
  | admitted (gain worstP : ℚ)
  | reject (control reason : String)

/-- What `StdRng` answers for a seed. -/
structure Draws where
  shuffle : UInt64 → List String → List String
  coins : UInt64 → Nat → Bool

/-- The scope checks at the start of `validate_candidate`, which come before any statistics. -/
def scopeRefusal (candidate : TransitionRule) (localCluster : UInt32) : Option RuleVerdict :=
  match candidate.scope with
  | .cluster id =>
      if id ≠ localCluster then
        some (.reject "scope" ("cluster " ++ toString id ++ " rule offered to cluster " ++
          toString localCluster))
      else none
  | .privateScope => some (.reject "scope" "private rules are not federable")
  | .globalScope | .unresolved => none

/-- The first shuffled post-state that is not the candidate's own. -/
def shuffledPost (draws : Draws) (seed : UInt64) (model : WorldModel)
    (candidate : TransitionRule) : String :=
  ((draws.shuffle seed (model.holdout.map Transition.post)).find? fun post =>
    post ≠ candidate.post).getD "__shuffled__"

/-- The three controls and their scores. -/
def controls (draws : Draws) (seed : UInt64) (model : WorldModel) (candidate : TransitionRule) :
    List (String × List ℚ) :=
  [("no_rule", model.holdoutScores none),
    ("support_shuffled",
      model.holdoutScores
        (some { candidate with post := shuffledPost draws seed model candidate })),
    ("scope_mismatched",
      model.holdoutScores (some { candidate with pre := "__not_" ++ candidate.pre }))]

/-- The variables of the loop over the controls. -/
structure Comparison where
  worstP : ℚ
  worstControl : String
  gainVsBaseline : ℚ

/-- One turn of the loop, which is left at a control that the candidate does not reach. -/
def compareControl (text : NumberText) (draws : Draws) (config : AdmissionConfig)
    (withCandidate : List ℚ) (state : Comparison) (control : (String × List ℚ) × Nat) :
    Except RuleVerdict Comparison :=
  let name := control.1.1
  let differences := withCandidate.zipWith (· - ·) control.1.2
  let meanDiff := mean differences
  let gain := if name = "no_rule" then meanDiff else state.gainVsBaseline
  let p := signFlipPermutationTest differences config.resamples
    (draws.coins (config.seed + (UInt64.ofNat control.2 + 1)))
  let next : Comparison :=
    if state.worstP < p then ⟨p, name, gain⟩ else { state with gainVsBaseline := gain }
  if meanDiff < 0 then
    .error (.reject name ("candidate underperforms control (" ++ text.fixed4 meanDiff ++ ")"))
  else .ok next

/-- The verdict after the loop. -/
def conclude (text : NumberText) (config : AdmissionConfig) (state : Comparison) : RuleVerdict :=
  if 0 < state.gainVsBaseline ∧ state.worstP < config.alpha then
    .admitted state.gainVsBaseline state.worstP
  else
    .reject state.worstControl ("gain=" ++ text.fixed4 state.gainVsBaseline ++ ", worst p=" ++
      text.fixed4 state.worstP ++ " (need gain > 0 and p < " ++ text.display config.alpha ++ ")")

/-- `validate_candidate`. -/
def validateCandidate (text : NumberText) (draws : Draws) (model : WorldModel)
    (candidate : TransitionRule) (localCluster : UInt32) (config : AdmissionConfig) :
    RuleVerdict :=
  match scopeRefusal candidate localCluster with
  | some refusal => refusal
  | none =>
      let n := model.holdout.length
      if n < config.minHoldout then
        .reject "holdout" ("only " ++ toString n ++ " held-out transitions, need " ++
          toString config.minHoldout)
      else
        match (controls draws config.seed model candidate).zipIdx.foldlM
            (compareControl text draws config (model.holdoutScores (some candidate)))
            ⟨0, "", 0⟩ with
        | .error verdict => verdict
        | .ok state => conclude text config state

variable {text : NumberText} {draws : Draws} {config : AdmissionConfig} {model : WorldModel}
  {candidate : TransitionRule} {localCluster : UInt32} {gain worstP : ℚ}

/-! ## What is admitted -/

/-- The loop only stops early with a rejection. -/
theorem compare_control_error {withCandidate : List ℚ} {state : Comparison}
    {control : (String × List ℚ) × Nat} {verdict : RuleVerdict}
    (h : compareControl text draws config withCandidate state control = .error verdict) :
    ∃ control reason, verdict = .reject control reason := by
  unfold compareControl at h
  dsimp only at h
  split at h
  · cases h
    exact ⟨_, _, rfl⟩
  · cases h

/-- What comparing with one more control finds. -/
theorem compare_control_ok {withCandidate : List ℚ} {state next : Comparison}
    {control : (String × List ℚ) × Nat}
    (h : compareControl text draws config withCandidate state control = .ok next) :
    next.gainVsBaseline =
      if control.1.1 = "no_rule" then mean (withCandidate.zipWith (· - ·) control.1.2)
      else state.gainVsBaseline := by
  unfold compareControl at h
  dsimp only at h
  split at h
  · cases h
  · cases h
    split <;> rfl

/-- The scores of a candidate against those of the table add up to the transitions that it wins. -/
theorem mean_gain (model : WorldModel) (candidate : TransitionRule) (h : 0 < model.holdout.length) :
    mean ((model.holdoutScores (some candidate)).zipWith (· - ·) (model.holdoutScores none)) *
      model.holdout.length = model.hits (some candidate) - model.hits none := by
  have hlength : ∀ overlay, (model.holdoutScores overlay).length = model.holdout.length :=
    fun overlay => List.length_map _
  have hsum : ∀ left right : List ℚ, left.length = right.length →
      (left.zipWith (· - ·) right).sum = left.sum - right.sum := by
    intro left right
    induction left generalizing right with
    | nil =>
        intro hsame
        rw [List.length_eq_zero_iff.mp hsame.symm]
        simp
    | cons first left ih =>
        intro hsame
        obtain ⟨second, right, rfl⟩ := List.exists_cons_of_length_eq_add_one hsame.symm
        rw [List.zipWith_cons_cons, List.sum_cons, ih right (by simpa using hsame), List.sum_cons,
          List.sum_cons]
        ring
  have hpos : (model.holdout.length : ℚ) ≠ 0 := by exact_mod_cast h.ne'
  rw [mean, hsum _ _ ((hlength _).trans (hlength _).symm), List.length_zipWith, hlength, hlength,
    Nat.min_self, div_mul_cancel₀ _ hpos, WorldModel.sum_holdout_scores,
    WorldModel.sum_holdout_scores]

/-- A refusal for the scope is a rejection. -/
theorem scope_refusal_reject {refusal : RuleVerdict}
    (h : scopeRefusal candidate localCluster = some refusal) :
    ∃ control reason, refusal = .reject control reason := by
  unfold scopeRefusal at h
  split at h
  · split at h
    · exact ⟨_, _, (Option.some.inj h).symm⟩
    · cases h
  · exact ⟨_, _, (Option.some.inj h).symm⟩
  all_goals cases h

/-- The loop leaves the mean difference to the first control as the gain. -/
theorem gain_of_loop {withCandidate : List ℚ} {start state : Comparison}
    (h : (controls draws config.seed model candidate).zipIdx.foldlM
      (compareControl text draws config withCandidate) start = .ok state) :
    state.gainVsBaseline =
      mean (withCandidate.zipWith (· - ·) (model.holdoutScores none)) := by
  rw [controls, List.zipIdx_cons, List.foldlM_cons] at h
  obtain ⟨first, hfirst, hrest⟩ := bind_eq_ok_iff.mp h
  refine foldlM_keeps
    (fun reached => reached.gainVsBaseline =
      mean (withCandidate.zipWith (· - ·) (model.holdoutScores none)))
    (fun reached next control hcontrol hreached hstep => ?_) (compare_control_ok hfirst) hrest
  -- no other control has the name of the baseline
  have hname : control.1.1 ≠ "no_rule" := by
    simp only [List.zipIdx_cons, List.zipIdx_nil, List.mem_cons, List.not_mem_nil, or_false]
      at hcontrol
    rcases hcontrol with rfl | rfl <;> simp
  rw [compare_control_ok hstep, if_neg hname, hreached]

/-- An admitted rule may be shared with the node, and its gain is the share of the log that the
table predicts right only with it. -/
theorem validate_candidate_admitted
    (h : validateCandidate text draws model candidate localCluster config = .admitted gain worstP) :
    scopeRefusal candidate localCluster = none ∧ worstP < config.alpha ∧
      model.hits none < model.hits (some candidate) ∧
      gain * model.holdout.length = model.hits (some candidate) - model.hits none := by
  unfold validateCandidate at h
  split at h
  · rename_i refusal hscope
    obtain ⟨control, reason, rfl⟩ := scope_refusal_reject hscope
    cases h
  rename_i hscope
  dsimp only at h
  split at h
  · cases h
  split at h
  · rename_i verdict hloop
    obtain ⟨state, control, -, hstep⟩ := exists_of_foldlM_eq_error hloop
    obtain ⟨name, reason, rfl⟩ := compare_control_error hstep
    cases h
  · rename_i state hloop
    have hgain := gain_of_loop hloop
    unfold conclude at h
    split at h
    · rename_i hadmit
      cases h
      have hpos : 0 < model.holdout.length := by
        refine Nat.pos_of_ne_zero fun hempty => hadmit.1.ne' ?_
        rw [hgain, mean, WorldModel.holdoutScores, List.length_eq_zero_iff.mp hempty,
          List.map_nil, List.zipWith_nil_left, List.sum_nil, zero_div]
      have hwon := mean_gain model candidate hpos
      rw [← hgain] at hwon
      have hmore : (0 : ℚ) < state.gainVsBaseline * model.holdout.length :=
        mul_pos hadmit.1 (Nat.cast_pos.mpr hpos)
      rw [hwon, sub_pos, Nat.cast_lt] at hmore
      exact ⟨hscope, hadmit.2, hmore, hwon⟩
    · cases h

/-- The scopes that are not refused. -/
theorem scope_refusal_eq_none_iff :
    scopeRefusal candidate localCluster = none ↔
      candidate.scope ≠ .privateScope ∧
        ∀ id, candidate.scope = .cluster id → id = localCluster := by
  unfold scopeRefusal
  cases hscope : candidate.scope with
  | cluster id => simp
  | privateScope => simp
  | globalScope => simp
  | unresolved => simp

/-! ## The log of a node over a run -/

/-- What happens to the table of a node: a held-out observation, or a candidate from a peer. -/
inductive Event where
  | observe (transition : Transition)
  | offer (candidate : TransitionRule) (config : AdmissionConfig)

/-- A candidate is installed when it is admitted. -/
def receiveCandidate (text : NumberText) (draws : Draws) (localCluster : UInt32)
    (model : WorldModel) (candidate : TransitionRule) (config : AdmissionConfig) : WorldModel :=
  match validateCandidate text draws model candidate localCluster config with
  | .admitted _ _ => model.install candidate
  | .reject _ _ => model

section Runs

variable (text : NumberText) (draws : Draws) (localCluster : UInt32)

/-- An event of a node. -/
def stepEvent (model : WorldModel) : Event → WorldModel
  | .observe transition => model.recordHoldout transition
  | .offer candidate config => receiveCandidate text draws localCluster model candidate config

/-- What an event adds to the transitions that are predicted right: a transition that the table
knows already, or as many as the gain of the verdict stands for. -/
def credit (model : WorldModel) : Event → ℚ
  | .observe transition =>
      if model.predict transition.pre transition.action = some transition.post then 1 else 0
  | .offer candidate config =>
      match validateCandidate text draws model candidate localCluster config with
      | .admitted gain _ => gain * model.holdout.length
      | .reject _ _ => 0

/-- How many rules an event installs. -/
def admitted (model : WorldModel) : Event → Nat
  | .observe _ => 0
  | .offer candidate config =>
      match validateCandidate text draws model candidate localCluster config with
      | .admitted _ _ => 1
      | .reject _ _ => 0

/-- The credit of a run. -/
def credits : WorldModel → List Event → ℚ
  | _, [] => 0
  | model, event :: events =>
      credit text draws localCluster model event +
        credits (stepEvent text draws localCluster model event) events

/-- The number of candidates that are admitted in a run. -/
def admissions : WorldModel → List Event → Nat
  | _, [] => 0
  | model, event :: events =>
      admitted text draws localCluster model event +
        admissions (stepEvent text draws localCluster model event) events

/-- The transitions that are predicted right grow by the credit of an event, and by one or more when
it admits a candidate. -/
theorem hits_step_event (model : WorldModel) (event : Event) :
    ((stepEvent text draws localCluster model event).hits none : ℚ) =
        model.hits none + credit text draws localCluster model event ∧
      model.hits none + admitted text draws localCluster model event ≤
        (stepEvent text draws localCluster model event).hits none := by
  cases event with
  | observe transition =>
      rw [stepEvent, credit, admitted, WorldModel.hits_record_holdout]
      constructor
      · push_cast
        rfl
      · exact Nat.le_add_right _ _
  | offer candidate config =>
      unfold stepEvent credit admitted receiveCandidate
      dsimp only
      rcases hverdict : validateCandidate text draws model candidate localCluster config with
        ⟨gain, worstP⟩ | ⟨control, reason⟩
      · obtain ⟨-, -, hmore, hgain⟩ := validate_candidate_admitted hverdict
        dsimp only
        rw [WorldModel.hits_install]
        exact ⟨by rw [hgain]; ring, hmore⟩
      · exact ⟨(add_zero _).symm, le_refl _⟩

/-- An event adds an observation to the held-out ones or leaves them as they are. -/
theorem step_event_holdout (model : WorldModel) (event : Event) :
    (stepEvent text draws localCluster model event).holdout = model.holdout ++
      match event with
      | .observe transition => [transition]
      | .offer _ _ => [] := by
  cases event with
  | observe transition => rfl
  | offer candidate config =>
      rw [stepEvent, receiveCandidate, List.append_nil]
      split <;> rfl

/-- Over a run of observations and candidates, the held-out transitions that a node predicts right
grow by exactly what the verdicts of the admitted candidates promise and by the observations that it
already predicts, and each admission brings at least one, so that the log bounds the number of
admissions. -/
theorem admissions_account (model : WorldModel) (events : List Event) :
    ((events.foldl (stepEvent text draws localCluster) model).hits none : ℚ) =
        model.hits none + credits text draws localCluster model events ∧
      model.hits none + admissions text draws localCluster model events ≤
        (events.foldl (stepEvent text draws localCluster) model).hits none ∧
      model.hits none + admissions text draws localCluster model events ≤
        model.holdout.length + events.countP fun
          | .observe _ => true
          | .offer _ _ => false := by
  have hlength : (events.foldl (stepEvent text draws localCluster) model).holdout.length =
      model.holdout.length + events.countP fun
        | .observe _ => true
        | .offer _ _ => false := by
    induction events generalizing model with
    | nil => rfl
    | cons event events ih =>
        rw [List.foldl_cons, ih, step_event_holdout, List.length_append, List.countP_cons]
        cases event with
        | observe transition =>
            simp only [List.length_singleton, if_true]
            omega
        | offer candidate config => simp only [List.length_nil, Bool.false_eq_true, if_false]; omega
  have haccount :
      ((events.foldl (stepEvent text draws localCluster) model).hits none : ℚ) =
          model.hits none + credits text draws localCluster model events ∧
        model.hits none + admissions text draws localCluster model events ≤
          (events.foldl (stepEvent text draws localCluster) model).hits none := by
    clear hlength
    induction events generalizing model with
    | nil => exact ⟨(add_zero _).symm, le_refl _⟩
    | cons event events ih =>
        obtain ⟨hcredit, hadmitted⟩ := hits_step_event text draws localCluster model event
        obtain ⟨hcredits, hadmissions⟩ := ih (stepEvent text draws localCluster model event)
        rw [List.foldl_cons, credits, admissions]
        refine ⟨?_, ?_⟩
        · rw [hcredits, hcredit, add_assoc]
        · omega
  refine ⟨haccount.1, haccount.2, haccount.2.trans ?_⟩
  rw [← hlength]
  exact WorldModel.hits_le _ _

end Runs

end LatentMesh.Federation
