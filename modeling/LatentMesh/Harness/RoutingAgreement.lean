import Mathlib.Tactic.NormNum
import Mathlib.Tactic.Ring
import LatentMesh.Harness.Routing
import LatentMesh.Lib.Selection

/-!
# The two routers agree

The router of the harness divides every weight by their sum, and the Rust router does not: its
scores are the Rust scores times the sum of the weights (`density_of_ok`). A common positive factor
changes neither which candidates have a score nor which one is the first best (`routes_agree`).
-/

namespace LatentMesh.Harness

open LatentMesh.Lib
open LatentMesh.Reasoning (CostScale CostWeights GainMeasurement ModeCandidate ResourceCost
  RepresentationMode RepresentationRouter RouteDecision ScoreOutcome)

/-- The sum of the weights. -/
def weightSum (weights : CostWeights) : ℚ :=
  weights.bandwidth + weights.latency + weights.energy + weights.risk

/-- The candidate of the harness has the gain and the four costs of the Rust candidate. -/
structure Corresponds (candidate : Candidate) (other : ModeCandidate) : Prop where
  gain : candidate.gain = other.gain
  bytes : candidate.cost .bytes = some other.cost.bytes
  latencySeconds : candidate.cost .latencySeconds = some other.cost.latencySeconds
  energyJoules : candidate.cost .energyJoules = some other.cost.energyJoules
  risk : candidate.cost .risk = some other.cost.risk

/-- Both routers mark the candidate unmeasured, invalid or scored. -/
def SameOutcome : Outcome → ScoreOutcome → Prop
  | .unmeasured, .unmeasured => True
  | .invalid _, .invalid => True
  | .scored _, .scored _ => True
  | _, _ => False

/-- What is chosen from a list of scores: the earliest of the maximal ones when that is positive,
and otherwise nothing, with the score zero. -/
def Picks (scores : List (Option ℚ)) (score : ℚ) : Option Nat → Prop
  | some index => IsFirstBest 0 scores index score
  | none => NoneAbove 0 scores ∧ score = 0

/-- The decision of the harness is for the candidate at an index, or for silence. -/
structure Selects (decision : Decision) (candidates : List Candidate) (winner : Option Nat) :
    Prop where
  considered : (decision.considered.map fun entry => (entry.id, entry.mode)) =
    candidates.map fun candidate => (candidate.id, candidate.mode)
  picks : Picks (decision.considered.map fun entry => entry.outcome.score?) decision.selectedScore
    winner
  selected : decision.selected =
    ((winner.bind fun index => candidates[index]?).map Candidate.mode).getD modeNone
  selectedId : decision.selectedId =
    (winner.bind fun index => candidates[index]?).map Candidate.id

/-- The Rust decision is for the candidate at an index, or for silence. -/
structure SelectsMode (decision : RouteDecision) (candidates : List ModeCandidate)
    (winner : Option Nat) : Prop where
  considered : decision.considered.map Prod.fst = candidates.map ModeCandidate.mode
  picks : Picks (decision.considered.map fun entry => entry.2.score?) decision.selectedScore winner
  selected : decision.selected =
    ((winner.bind fun index => candidates[index]?).map ModeCandidate.mode).getD .none

/-! ## The two loops -/

section Loops

variable {scale : CostScale} {weights : CostWeights}

/-- What a turn of the Rust loop says of a candidate. -/
def outcomeMode (scale : CostScale) (weights : CostWeights) (candidate : ModeCandidate) :
    ScoreOutcome :=
  match candidate.gain with
  | .unmeasured => .unmeasured
  | .measured deltaV =>
      match Reasoning.utilityDensity deltaV candidate.cost scale weights with
      | .ok score => .scored score
      | .error _ => .invalid

/-- What a turn of the loop of the harness says of a candidate. -/
def outcome (scale : CostScale) (weights : CostWeights) (candidate : Candidate) : Outcome :=
  match candidate.gain with
  | .unmeasured => .unmeasured
  | .measured deltaV =>
      match utilityDensity deltaV candidate.cost scale weights with
      | .ok score => .scored score
      | .error error => .invalid error

/-- One candidate of the sibling, as a step of the scan. -/
theorem consider_mode_eq (decision : RouteDecision) (candidate : ModeCandidate) :
    RepresentationRouter.consider ⟨scale, weights⟩ decision candidate =
      let best := scanStep (fun candidate => (outcomeMode scale weights candidate).score?)
        ModeCandidate.mode (decision.selected, decision.selectedScore) candidate
      { selected := best.1
        selectedScore := best.2
        considered :=
          decision.considered ++ [(candidate.mode, outcomeMode scale weights candidate)] } := by
  obtain ⟨mode, gain, cost⟩ := candidate
  unfold RepresentationRouter.consider outcomeMode scanStep
  cases gain with
  | unmeasured => rfl
  | measured deltaV =>
      dsimp only
      cases Reasoning.utilityDensity deltaV cost scale weights with
      | error error => rfl
      | ok score =>
          dsimp only [ScoreOutcome.score?]
          by_cases hbetter : decision.selectedScore < score
          · rw [if_pos hbetter, if_pos hbetter]
          · rw [if_neg hbetter, if_neg hbetter]

/-- The Rust loop is the scan for the first best score, and marks every candidate. -/
theorem route_mode_eq (start : RouteDecision) (candidates : List ModeCandidate) :
    candidates.foldl (RepresentationRouter.consider ⟨scale, weights⟩) start =
      let best := scanBest (fun candidate => (outcomeMode scale weights candidate).score?)
        ModeCandidate.mode (start.selected, start.selectedScore) candidates
      { selected := best.1
        selectedScore := best.2
        considered := start.considered ++ candidates.map fun candidate =>
          (candidate.mode, outcomeMode scale weights candidate) } := by
  induction candidates generalizing start with
  | nil => simp [scanBest]
  | cons candidate candidates ih =>
      rw [List.foldl_cons, ih, consider_mode_eq]
      simp [scanBest]

/-- One candidate, as a step of the scan. -/
theorem consider_eq (decision : Decision) (candidate : Candidate) :
    consider scale weights decision candidate =
      let best := scanStep (fun candidate => (outcome scale weights candidate).score?)
        (fun candidate => (candidate.mode, some candidate.id))
        ((decision.selected, decision.selectedId), decision.selectedScore) candidate
      { selected := best.1.1
        selectedId := best.1.2
        selectedScore := best.2
        considered := decision.considered ++
          [⟨candidate.id, candidate.mode, outcome scale weights candidate⟩] } := by
  obtain ⟨id, mode, gain, cost⟩ := candidate
  unfold consider outcome scanStep
  cases gain with
  | unmeasured => rfl
  | measured deltaV =>
      dsimp only
      cases utilityDensity deltaV cost scale weights with
      | error error => rfl
      | ok score =>
          dsimp only [Outcome.score?]
          by_cases hbetter : decision.selectedScore < score
          · rw [if_pos hbetter, if_pos hbetter]
          · rw [if_neg hbetter, if_neg hbetter]

/-- So is the loop of the harness. -/
theorem route_eq (start : Decision) (candidates : List Candidate) :
    candidates.foldl (consider scale weights) start =
      let best := scanBest (fun candidate => (outcome scale weights candidate).score?)
        (fun candidate => (candidate.mode, some candidate.id))
        ((start.selected, start.selectedId), start.selectedScore) candidates
      { selected := best.1.1
        selectedId := best.1.2
        selectedScore := best.2
        considered := start.considered ++ candidates.map fun candidate =>
          ⟨candidate.id, candidate.mode, outcome scale weights candidate⟩ } := by
  induction candidates generalizing start with
  | nil => simp [scanBest]
  | cons candidate candidates ih =>
      rw [List.foldl_cons, ih, consider_eq]
      simp [scanBest]

end Loops

/-! ## The two scores -/

section Scores

variable {scale : CostScale} {weights : CostWeights} {candidate : Candidate} {other : ModeCandidate}

/-- The parts of a valid scale are positive. -/
theorem scale_pos (hscale : scale.isValid = true) (resource : Resource) :
    0 < resource.scale scale := by
  simp only [CostScale.isValid, List.all_cons, List.all_nil, Bool.and_true, Bool.and_eq_true,
    decide_eq_true_eq] at hscale
  cases resource
  · exact hscale.1
  · exact hscale.2.1
  · exact hscale.2.2.1
  · exact hscale.2.2.2

/-- The denominator of the Rust score. -/
def denominatorOf (cost : ResourceCost) (scale : CostScale) (weights : CostWeights) : ℚ :=
  weights.bandwidth * (cost.bytes / scale.bytes) +
    weights.latency * (cost.latencySeconds / scale.latencySeconds) +
    weights.energy * (cost.energyJoules / scale.energyJoules) +
    weights.risk * (cost.risk / scale.risk)

/-- The Rust score under a valid scale. -/
theorem density_mode_eq (hscale : scale.isValid = true) (deltaV : ℚ) (cost : ResourceCost) :
    Reasoning.utilityDensity deltaV cost scale weights =
      if ¬ cost.isFiniteAndNonnegative then .error .invalidCost
      else if denominatorOf cost scale weights ≤ 0 then .error .zeroCost
      else .ok (deltaV / denominatorOf cost scale weights) := by
  rw [Reasoning.utilityDensity, if_neg (not_not.mpr hscale)]
  rfl

/-- The terms of a candidate whose costs are all present. -/
theorem present_terms_eq (hscale : scale.isValid = true) (hsame : Corresponds candidate other) :
    presentTerms candidate.cost scale weights Resource.all [] =
      if ¬ other.cost.isFiniteAndNonnegative then .error .invalidCost
      else .ok
        [⟨other.cost.bytes / scale.bytes, weights.bandwidth⟩,
          ⟨other.cost.latencySeconds / scale.latencySeconds, weights.latency⟩,
          ⟨other.cost.energyJoules / scale.energyJoules, weights.energy⟩,
          ⟨other.cost.risk / scale.risk, weights.risk⟩] := by
  have hpos : ∀ resource : Resource, ¬ resource.scale scale ≤ 0 := fun resource =>
    not_le.mpr (scale_pos hscale resource)
  have hcost : other.cost.isFiniteAndNonnegative = true ↔ 0 ≤ other.cost.bytes ∧
      0 ≤ other.cost.latencySeconds ∧ 0 ≤ other.cost.energyJoules ∧ 0 ≤ other.cost.risk := by
    simp [ResourceCost.isFiniteAndNonnegative]
  simp only [Resource.all, presentTerms, hsame.bytes, hsame.latencySeconds, hsame.energyJoules,
    hsame.risk, hpos, if_false, hcost]
  by_cases hbytes : other.cost.bytes < 0
  · rw [if_pos hbytes, if_pos fun h => absurd h.1 (not_le.mpr hbytes)]
  · rw [if_neg hbytes]
    by_cases hlatency : other.cost.latencySeconds < 0
    · rw [if_pos hlatency, if_pos fun h => absurd h.2.1 (not_le.mpr hlatency)]
    · rw [if_neg hlatency]
      by_cases henergy : other.cost.energyJoules < 0
      · rw [if_pos henergy, if_pos fun h => absurd h.2.2.1 (not_le.mpr henergy)]
      · rw [if_neg henergy]
        by_cases hrisk : other.cost.risk < 0
        · rw [if_pos hrisk, if_pos fun h => absurd h.2.2.2 (not_le.mpr hrisk)]
        · rw [if_neg hrisk, if_neg (not_not.mpr
            ⟨not_lt.mp hbytes, not_lt.mp hlatency, not_lt.mp henergy, not_lt.mp hrisk⟩)]
          rfl

/-- The score of the harness: the denominator is divided by the sum of the weights. -/
theorem density_eq (hscale : scale.isValid = true) (hsum : 0 < weightSum weights)
    (hsame : Corresponds candidate other) (deltaV : ℚ) :
    utilityDensity deltaV candidate.cost scale weights =
      if ¬ other.cost.isFiniteAndNonnegative then .error .invalidCost
      else if denominatorOf other.cost scale weights ≤ 0 then .error .zeroCost
      else .ok (weightSum weights * (deltaV / denominatorOf other.cost scale weights)) := by
  rw [utilityDensity, present_terms_eq hscale hsame]
  by_cases hcost : other.cost.isFiniteAndNonnegative = true
  · rw [if_neg (not_not.mpr hcost), if_neg (not_not.mpr hcost)]
    have htotal : 0 + weights.bandwidth + weights.latency + weights.energy + weights.risk =
        weightSum weights := by
      rw [zero_add]
      rfl
    have hdenominator : ∀ first second third fourth : ℚ,
        0 + weights.bandwidth / weightSum weights * first +
            weights.latency / weightSum weights * second +
            weights.energy / weightSum weights * third +
            weights.risk / weightSum weights * fourth =
          (weights.bandwidth * first + weights.latency * second + weights.energy * third +
            weights.risk * fourth) / weightSum weights := by
      intro first second third fourth
      ring
    simp only [Except.bind, List.foldl_cons, List.foldl_nil, htotal, hdenominator]
    rw [if_neg (by simp), if_neg (not_not.mpr hsum)]
    change (if ¬ 0 < denominatorOf other.cost scale weights / weightSum weights then _ else
      Except.ok (deltaV / (denominatorOf other.cost scale weights / weightSum weights))) = _
    by_cases hpos : 0 < denominatorOf other.cost scale weights
    · rw [if_neg (not_not.mpr (div_pos hpos hsum)), if_neg (not_le.mpr hpos)]
      refine congrArg _ ?_
      rw [div_div_eq_mul_div, mul_comm deltaV, mul_div_assoc]
    · rw [if_pos fun h => hpos ((div_pos_iff_of_pos_right hsum).mp h), if_pos (not_lt.mp hpos)]
  · rw [if_pos hcost, if_pos hcost]
    rfl

/-- Both routers mark a candidate the same, and the score of the harness is the Rust score times the
sum of the weights. -/
theorem outcome_agrees (hscale : scale.isValid = true) (hsum : 0 < weightSum weights)
    (hsame : Corresponds candidate other) :
    SameOutcome (outcome scale weights candidate) (outcomeMode scale weights other) ∧
      (outcome scale weights candidate).score? =
        (outcomeMode scale weights other).score?.map (weightSum weights * ·) := by
  unfold outcome outcomeMode
  rw [hsame.gain]
  cases other.gain with
  | unmeasured => exact ⟨trivial, rfl⟩
  | measured deltaV =>
      dsimp only
      rw [density_eq hscale hsum hsame, density_mode_eq hscale]
      by_cases hcost : other.cost.isFiniteAndNonnegative = true
      · rw [if_neg (not_not.mpr hcost), if_neg (not_not.mpr hcost)]
        by_cases hzero : denominatorOf other.cost scale weights ≤ 0
        · rw [if_pos hzero, if_pos hzero]
          exact ⟨trivial, rfl⟩
        · rw [if_neg hzero, if_neg hzero]
          exact ⟨trivial, rfl⟩
      · rw [if_pos hcost, if_pos hcost]
        exact ⟨trivial, rfl⟩

end Scores

/-! ## The two decisions -/

/-- The scan from score zero ends with what is picked from the scores. -/
theorem picks_of_scan {γ ρ : Type} (score : γ → Option ℚ) (pick : γ → ρ) (start : ρ)
    (items : List γ) {winner : Option Nat}
    (hwinner : (firstBest 0 (items.map score)).map Prod.fst = winner) :
    Picks (items.map score) (scanBest score pick (start, 0) items).2 winner ∧
      (scanBest score pick (start, 0) items).1 =
        ((winner.bind fun index => items[index]?).map pick).getD start := by
  rw [scan_best_eq]
  subst hwinner
  cases hbest : firstBest 0 (items.map score) with
  | none => exact ⟨⟨(first_best_spec _ _).2 hbest, rfl⟩, rfl⟩
  | some best => exact ⟨(first_best_spec _ _).1 _ _ hbest, rfl⟩

variable {scale : CostScale} {weights : CostWeights} {candidates : List Candidate}
  {others : List ModeCandidate}

/-- Both routers find the same about candidates that correspond. -/
theorem outcomes_agree (hscale : scale.isValid = true) (hsum : 0 < weightSum weights)
    (hsame : List.Forall₂ Corresponds candidates others) :
    (List.Forall₂ SameOutcome (candidates.map (outcome scale weights))
      (others.map (outcomeMode scale weights))) ∧
    (candidates.map fun candidate => (outcome scale weights candidate).score?) =
      (others.map fun other => (outcomeMode scale weights other).score?).map
        (Option.map (weightSum weights * ·)) := by
  induction hsame with
  | nil => exact ⟨.nil, rfl⟩
  | cons hfirst _ ih =>
      obtain ⟨hmark, hscore⟩ := outcome_agrees hscale hsum hfirst
      exact ⟨.cons hmark ih.1, congrArg₂ _ hscore ih.2⟩

/-- Under positive scales and weights of a positive sum the two routers mark the same candidates
unmeasured, invalid and scored, and select the same candidate or silence. When the weights sum to
one, their scores are equal. -/
theorem routes_agree (hscale : ∀ resource : Resource, 0 < resource.scale scale)
    (hsum : 0 < weightSum weights) (hsame : List.Forall₂ Corresponds candidates others) :
    let decision := route candidates scale weights
    let modeDecision := RepresentationRouter.route ⟨scale, weights⟩ others
    (∃ winner, Selects decision candidates winner ∧ SelectsMode modeDecision others winner) ∧
    List.Forall₂ SameOutcome (decision.considered.map Considered.outcome)
      (modeDecision.considered.map Prod.snd) ∧
    (weightSum weights = 1 →
      (decision.considered.map fun entry => entry.outcome.score?) =
        (modeDecision.considered.map fun entry => entry.2.score?) ∧
      decision.selectedScore = modeDecision.selectedScore) := by
  intro decision modeDecision
  have hvalid : scale.isValid = true := by
    simp only [CostScale.isValid, List.all_cons, List.all_nil, Bool.and_true, Bool.and_eq_true,
      decide_eq_true_eq]
    exact ⟨hscale .bytes, hscale .latencySeconds, hscale .energyJoules, hscale .risk⟩
  obtain ⟨hmarks, hscores⟩ := outcomes_agree hvalid hsum hsame
  have hdecision : decision = _ := route_eq _ _
  have hmode : modeDecision = _ := route_mode_eq _ _
  have hmap : (decision.considered.map fun entry => entry.outcome.score?) =
      candidates.map fun candidate => (outcome scale weights candidate).score? := by
    rw [hdecision]
    simp [Function.comp_def]
  have hmapMode : (modeDecision.considered.map fun entry => entry.2.score?) =
      others.map fun other => (outcomeMode scale weights other).score? := by
    rw [hmode]
    simp [Function.comp_def]
  -- the first best of the Rust scores is the first best of the scores of the harness
  obtain ⟨winner, hwinner⟩ : ∃ winner, (firstBest 0 (others.map fun other =>
      (outcomeMode scale weights other).score?)).map Prod.fst = winner := ⟨_, rfl⟩
  have hfirst : (firstBest 0 (candidates.map fun candidate =>
      (outcome scale weights candidate).score?)).map Prod.fst = winner := by
    have hscaled := first_best_scale hsum 0
      (others.map fun other => (outcomeMode scale weights other).score?)
    rw [mul_zero, ← hscores] at hscaled
    rw [hscaled, Option.map_map, ← hwinner]
    rfl
  have hpicks := picks_of_scan _ (fun candidate => (candidate.mode, some candidate.id))
    (modeNone, none) candidates hfirst
  have hpicksMode := picks_of_scan _ ModeCandidate.mode RepresentationMode.none others hwinner
  refine ⟨⟨winner, ⟨?_, ?_, ?_, ?_⟩, ⟨?_, ?_, ?_⟩⟩, ?_, fun hone => ⟨?_, ?_⟩⟩
  · rw [hdecision]
    simp [Function.comp_def]
  · rw [hmap, hdecision]
    exact hpicks.1
  · rw [hdecision]
    refine (congrArg Prod.fst hpicks.2).trans ?_
    cases winner.bind fun index => candidates[index]? <;> rfl
  · rw [hdecision]
    refine (congrArg Prod.snd hpicks.2).trans ?_
    cases winner.bind fun index => candidates[index]? <;> rfl
  · rw [hmode]
    simp [Function.comp_def]
  · rw [hmapMode, hmode]
    exact hpicksMode.1
  · rw [hmode]
    exact hpicksMode.2
  · rw [hdecision, hmode]
    simpa [Function.comp_def] using hmarks
  · rw [hmap, hmapMode, hscores, hone]
    simp
  · have hscore := (congrArg Decision.selectedScore hdecision).trans (scan_best_score _ _ _ _ _)
    have hscoreMode :=
      (congrArg RouteDecision.selectedScore hmode).trans (scan_best_score _ _ _ _ _)
    rw [hscore, hscoreMode, hscores, hone]
    simp

/-- A candidate whose four costs are one. -/
def unitCandidate (gain : GainMeasurement) : Candidate :=
  ⟨"a", "latent", gain, fun _ => some 1⟩

/-- A mode with unit costs. -/
def unitMode (gain : GainMeasurement) : ModeCandidate := ⟨.hiddenPrefix, gain, ⟨1, 1, 1, 1⟩⟩

/-- The decision between a mode without gain and one with. -/
def unitDecision : Decision :=
  route [unitCandidate .unmeasured, unitCandidate (.measured 2)] ⟨1, 1, 1, 1⟩ ⟨1, 0, 0, 0⟩

/-- The selected score at unit costs. -/
theorem routes_agree_unit :
    unitDecision.selectedScore = 2 ∧
      unitDecision.considered.map (fun entry => entry.outcome.score?) = [none, some 2] := by
  have hsame : List.Forall₂ Corresponds
      [unitCandidate .unmeasured, unitCandidate (.measured 2)]
      [unitMode .unmeasured, unitMode (.measured 2)] :=
    .cons ⟨rfl, rfl, rfl, rfl, rfl⟩ (.cons ⟨rfl, rfl, rfl, rfl, rfl⟩ .nil)
  have hagree := @routes_agree ⟨1, 1, 1, 1⟩ ⟨1, 0, 0, 0⟩ _ _
    (fun resource => by cases resource <;> decide) (by norm_num [weightSum]) hsame
  obtain ⟨hscores, hscore⟩ := hagree.2.2 (by norm_num [weightSum])
  rw [unitDecision, hscore, hscores]
  decide +kernel

end LatentMesh.Harness
