import LatentMesh.Reasoning.Budget

/-!
# Effort and difficulty

A task that is no easier than another gets no smaller a budget (`route_mono`), and with the same
measurements it does not stop before the other (`effort_follows_difficulty`). The arithmetic is that
of `f32`, with its roundings and overflows.
-/

namespace LatentMesh.Reasoning

open LatentMesh.Core LatentMesh.Lib Binary32

/-! ## Scaling -/

section Scaling

variable {t t' : Binary32}

/-- The clamp is monotone and ends between zero and one. -/
theorem clamp01_mono (h : t.le t' = true) : ∃ a b, clamp01 t = .finite a ∧ clamp01 t' = .finite b ∧
    0 ≤ a ∧ a ≤ b ∧ b ≤ 1 := exists_clamp_unit h

/-- Scaling to a range of up to 2^24 steps, with the two roundings of the step. -/
theorem scale_u32_to_nat {lo hi : UInt32} (hlt : lo < hi) (hrange : hi.toNat - lo.toNat ≤ 2 ^ 24)
    {a : ℚ} (ht : clamp01 t = .finite a) (hpos : 0 ≤ a) (hle : a ≤ 1) :
    ((scaleU32 lo hi t).toNat : ℤ) =
        lo.toNat + roundAway (nearest32 ((hi.toNat - lo.toNat : ℕ) * a)) ∧
      0 ≤ roundAway (nearest32 ((hi.toNat - lo.toNat : ℕ) * a)) ∧
      roundAway (nearest32 ((hi.toNat - lo.toNat : ℕ) * a)) ≤ (hi.toNat - lo.toNat : ℕ) := by
  have hsub : (hi - lo).toNat = hi.toNat - lo.toNat :=
    UInt32.toNat_sub_of_le _ _ (UInt32.le_of_lt hlt)
  generalize hsteps : hi.toNat - lo.toNat = steps at hsub hrange ⊢
  have hexact : Exact (steps : ℚ) := by
    refine ⟨nearest32_nat_cast hrange, ?_⟩
    rw [Nat.abs_cast]
    have hcast : (steps : ℚ) ≤ 2 ^ 24 := by exact_mod_cast hrange
    exact hcast.trans_lt (by norm_num)
  have hsteps0 : (0 : ℚ) ≤ steps := Nat.cast_nonneg _
  obtain ⟨heq, hlow, hhigh⟩ := of_rat_le_exact (mul_nonneg hsteps0 hpos)
    (mul_le_of_le_one_right hsteps0 hle) hexact
  have hroundLow := round_away_mono hlow
  have hroundHigh := round_away_mono hhigh
  have hzero : roundAway 0 = 0 := round_away_int_cast 0
  have hlast : roundAway (steps : ℚ) = steps := round_away_int_cast steps
  rw [hzero] at hroundLow
  rw [hlast] at hroundHigh
  refine ⟨?_, hroundLow, hroundHigh⟩
  have hof : ofU32 (hi - lo) = .finite steps := by
    rw [ofU32, hsub]
    obtain ⟨heq, -⟩ := of_rat_le_exact hsteps0 le_rfl hexact
    rw [heq, hexact.1]
  have hmul : (ofU32 (hi - lo)).mul (clamp01 t) = .finite (nearest32 (steps * a)) := by
    rw [hof, ht]
    exact heq
  have hbound : lo.toNat + steps < 2 ^ 32 := by
    have hhi := hi.toNat_lt
    have hle := UInt32.le_iff_toNat_le.mp (UInt32.le_of_lt hlt)
    omega
  rw [scaleU32, if_neg (UInt32.not_le.mpr hlt), hmul]
  show ((lo + UInt32.ofNat (min 0xffffffff ⌊((roundAway (nearest32 (steps * a)) : ℤ) : ℚ)⌋.toNat)
    ).toNat : ℤ) = _
  rw [Int.floor_intCast, UInt32.toNat_add, UInt32.toNat_ofNat_of_lt' (show _ < 2 ^ 32 by omega)]
  omega

/-- The scaled integer is monotone and within its bounds. -/
theorem scale_u32_mono {lo hi : UInt32} (hrange : hi.toNat - lo.toNat ≤ 2 ^ 24)
    (h : t.le t' = true) :
    lo.toNat ≤ (scaleU32 lo hi t).toNat ∧
      (scaleU32 lo hi t).toNat ≤ (scaleU32 lo hi t').toNat ∧
      (scaleU32 lo hi t').toNat ≤ Max.max lo.toNat hi.toNat := by
  by_cases hempty : hi ≤ lo
  · rw [scaleU32, scaleU32, if_pos hempty, if_pos hempty]
    exact ⟨le_rfl, le_rfl, Nat.le_max_left _ _⟩
  have hlt : lo < hi := UInt32.not_le.mp hempty
  obtain ⟨a, b, ha, hb, hpos, hle, hone⟩ := clamp01_mono h
  obtain ⟨hsmall, hlow, -⟩ := scale_u32_to_nat hlt hrange ha hpos (hle.trans hone)
  obtain ⟨hlarge, -, hhigh⟩ := scale_u32_to_nat hlt hrange hb (hpos.trans hle) hone
  have hmono := round_away_mono (nearest32_mono (mul_le_mul_of_nonneg_left hle
    (Nat.cast_nonneg (hi.toNat - lo.toNat))))
  have hnat := UInt32.lt_iff_toNat_lt.mp hlt
  omega

/-- The scaled number is monotone and within its bounds. -/
theorem scale_f32_mono {low high : ℚ} (hlow : 0 ≤ low) (hle : low ≤ high) (hhigh : Exact high)
    (h : t.le t' = true) :
    (scaleF32 (.finite low) (.finite high) t).le (scaleF32 (.finite low) (.finite high) t') =
      true := by
  obtain ⟨a, b, ha, hb, hpos, hmono, hone⟩ := clamp01_mono h
  have hstep : high - low ≤ high := sub_le_self _ hlow
  obtain ⟨hsub, hnonneg, hbound⟩ := of_rat_le_exact (sub_nonneg.mpr hle) hstep hhigh
  have hproduct : ∀ c, 0 ≤ c → c ≤ 1 → nearest32 (high - low) * c ≤ high := fun c _ hc =>
    (mul_le_of_le_one_right hnonneg hc).trans hbound
  obtain ⟨hsmall, -, -⟩ := of_rat_le_exact (mul_nonneg hnonneg hpos)
    (hproduct a hpos (hmono.trans hone)) hhigh
  obtain ⟨hlarge, -, -⟩ := of_rat_le_exact (mul_nonneg hnonneg (hpos.trans hmono))
    (hproduct b (hpos.trans hmono) hone) hhigh
  have hspread : (Binary32.finite high).sub (.finite low) = .finite (nearest32 (high - low)) := by
    rw [sub_eq_add_neg] at hsub ⊢
    exact hsub
  rw [scaleF32, scaleF32, hspread, ha, hb]
  show ((Binary32.finite low).add (ofRat _)).le ((Binary32.finite low).add (ofRat _)) = true
  rw [hsmall, hlarge]
  exact of_rat_mono (add_le_add_right (nearest32_mono (mul_le_mul_of_nonneg_left hmono hnonneg)) _)

/-- The tier is monotone in the score. -/
theorem tier_mono (h : t.le t' = true) :
    (BudgetTier.fromScore t).rank ≤ (BudgetTier.fromScore t').rank := by
  obtain ⟨a, b, ha, hb, -, hle, -⟩ := clamp01_mono h
  have hlt : ∀ c, (Binary32.finite b).lt (ofRat c) = true →
      (Binary32.finite a).lt (ofRat c) = true := by
    intro c hb
    cases hc : ofRat c with
    | nan => rw [hc] at hb; cases hb
    | infinite negative => rw [hc] at hb; exact hb
    | finite d =>
        rw [hc] at hb
        exact decide_eq_true (hle.trans_lt (of_decide_eq_true hb))
  unfold BudgetTier.fromScore
  rw [ha, hb]
  dsimp only
  split_ifs with h1 h2 h3 h4 <;> simp_all [BudgetTier.rank]

end Scaling

/-! ## Harder tasks -/

/-- A weight that a sum of weighted signals grows with. -/
def Weight (weight : Binary32) : Prop := ∃ value, weight = .finite value ∧ 0 ≤ value ∧ Exact value

/-- A configuration with weights that are numbers and ranges that are not too long to scale to. -/
structure ControllerConfig.Sane (config : ControllerConfig) : Prop where
  uncertainty : Weight config.weights.uncertainty
  structuralDifficulty : Weight config.weights.structuralDifficulty
  novelty : Weight config.weights.novelty
  historicalFailureRate : Weight config.weights.historicalFailureRate
  risk : Weight config.weights.risk
  latencyPressure : Weight config.weights.latencyPressure
  energyPressure : Weight config.weights.energyPressure
  iterations : config.maxIterations.toNat - config.minIterations.toNat ≤ 2 ^ 24
  memoryDepth : config.maxMemoryDepth.toNat - config.minMemoryDepth.toNat ≤ 2 ^ 24
  latentWidth : config.maxLatentWidth.toNat - config.minLatentWidth.toNat ≤ 2 ^ 24
  threshold : ∃ low high, config.minVerificationThreshold = .finite low ∧
    config.maxVerificationThreshold = .finite high ∧ 0 ≤ low ∧ low ≤ high ∧ Exact high

/-- A pressure that takes no more off the score of the second task. -/
def Relieved (riskClass riskClass' : RiskClass) (pressure pressure' : Binary32) : Prop :=
  riskClass.protectsVerificationFloor = true ∨
    (riskClass'.protectsVerificationFloor = true ∧ pressure ≠ .nan) ∨ pressure'.le pressure = true

/-- The second task is no easier: its signals are no lower, its pressures are no higher where they
count, and its class takes no more risk: it protects the verification floor if the class of the
first task does, and has no higher a ceiling. -/
structure NoEasier (controller : ReasoningBudgetController) (signals : DifficultySignals)
    (riskClass : RiskClass) (signals' : DifficultySignals) (riskClass' : RiskClass) : Prop where
  uncertainty : signals.uncertainty.le signals'.uncertainty = true
  structuralDifficulty : signals.structuralDifficulty.le signals'.structuralDifficulty = true
  novelty : signals.novelty.le signals'.novelty = true
  historicalFailureRate : signals.historicalFailureRate.le signals'.historicalFailureRate = true
  risk : signals.risk.le signals'.risk = true
  latencyPressure : Relieved riskClass riskClass' signals.latencyPressure signals'.latencyPressure
  energyPressure : Relieved riskClass riskClass' signals.energyPressure signals'.energyPressure
  riskClass : riskClass = riskClass' ∨
    ((riskClass.protectsVerificationFloor = true → riskClass'.protectsVerificationFloor = true) ∧
      (controller.riskCeiling riskClass').le (controller.riskCeiling riskClass) = true)

section Route

variable {controller : ReasoningBudgetController} {signals signals' : DifficultySignals}
  {riskClass riskClass' : RiskClass} {x y weight : Binary32}

/-- A weighted signal is monotone. -/
theorem weighted_mono (hweight : Weight weight) (h : x.le y = true) :
    ∃ small large, weight.mul (clamp01 x) = .finite small ∧
      weight.mul (clamp01 y) = .finite large ∧ 0 ≤ small ∧ small ≤ large := by
  obtain ⟨value, rfl, hpos, hexact⟩ := hweight
  obtain ⟨a, b, ha, hb, hlow, hle, hone⟩ := clamp01_mono h
  obtain ⟨small, large, hsmall, hlarge, hnonneg, hmono, -⟩ :=
    product_mono hexact hpos hlow hle hone
  exact ⟨small, large, ha ▸ hsmall, hb ▸ hlarge, hnonneg, hmono⟩

/-- What is no easier protects the verification floor as well. -/
theorem NoEasier.protects (h : NoEasier controller signals riskClass signals' riskClass')
    (hprotected : riskClass.protectsVerificationFloor = true) :
    riskClass'.protectsVerificationFloor = true := by
  rcases h.riskClass with rfl | ⟨hprotects, -⟩
  · exact hprotected
  · exact hprotects hprotected

/-- The term of the pressure is monotone. -/
theorem pressure_term_mono (hweight : Weight weight)
    (hprotects : riskClass.protectsVerificationFloor = true →
      riskClass'.protectsVerificationFloor = true)
    (h : Relieved riskClass riskClass' x y) :
    ∃ taken taken', ReasoningBudgetController.pressureTerm riskClass weight x = .finite taken ∧
      ReasoningBudgetController.pressureTerm riskClass' weight y = .finite taken' ∧
      taken' ≤ taken := by
  unfold ReasoningBudgetController.pressureTerm
  by_cases hfirst : riskClass.protectsVerificationFloor = true
  · rw [if_pos hfirst, if_pos (hprotects hfirst)]
    exact ⟨0, 0, rfl, rfl, le_rfl⟩
  rw [if_neg hfirst]
  rcases h with hprotected | ⟨hsecond, hnumber⟩ | hle
  · exact absurd hprotected hfirst
  · obtain ⟨taken, _, htaken, -, hpos, -⟩ := weighted_mono hweight (le_self hnumber)
    exact ⟨taken, 0, htaken, if_pos hsecond, hpos⟩
  · obtain ⟨small, large, hsmall, hlarge, hpos, hmono⟩ := weighted_mono hweight hle
    by_cases hsecond : riskClass'.protectsVerificationFloor = true
    · exact ⟨large, 0, hlarge, if_pos hsecond, hpos.trans hmono⟩
    · exact ⟨large, small, hlarge, (if_neg hsecond).trans hsmall, hmono⟩

/-- The score of a task that is no easier is no lower. -/
theorem raw_score_mono (hconfig : controller.config.Sane)
    (h : NoEasier controller signals riskClass signals' riskClass') :
    (controller.rawScore signals riskClass).le (controller.rawScore signals' riskClass') =
      true := by
  obtain ⟨_, _, hu, hu', -, hule⟩ := weighted_mono hconfig.uncertainty h.uncertainty
  obtain ⟨_, _, hs, hs', -, hsle⟩ :=
    weighted_mono hconfig.structuralDifficulty h.structuralDifficulty
  obtain ⟨_, _, hn, hn', -, hnle⟩ := weighted_mono hconfig.novelty h.novelty
  obtain ⟨_, _, hr, hr', -, hrle⟩ := weighted_mono hconfig.risk h.risk
  obtain ⟨_, _, hf, hf', -, hfle⟩ :=
    weighted_mono hconfig.historicalFailureRate h.historicalFailureRate
  obtain ⟨_, _, hl, hl', hlle⟩ :=
    pressure_term_mono hconfig.latencyPressure h.protects h.latencyPressure
  obtain ⟨_, _, he, he', hele⟩ :=
    pressure_term_mono hconfig.energyPressure h.protects h.energyPressure
  unfold ReasoningBudgetController.rawScore
  dsimp only
  rw [hu, hu', hs, hs', hn, hn', hr, hr', hf, hf', hl, hl', he, he']
  exact le_sub_finite (le_sub_finite (le_add_finite (le_add_finite (le_add_finite (le_add_finite
    (finite_le_finite.mpr hule) hsle) hnle) hrle) hfle) hlle) hele


/-- The maximum of two words. -/
theorem u32_max_to_nat (a b : UInt32) : (Max.max a b).toNat = Max.max a.toNat b.toNat := by
  show (if a ≤ b then b else a).toNat = _
  split
  · exact (max_eq_right (UInt32.le_iff_toNat_le.mp (by assumption))).symm
  · have hlt := UInt32.lt_iff_toNat_lt.mp (UInt32.not_le.mp (by assumption))
    exact (max_eq_left hlt.le).symm

/-- The second budget is no smaller. -/
structure ReasoningBudget.AtMost (budget budget' : ReasoningBudget) : Prop where
  iterations : budget.iterations.toNat ≤ budget'.iterations.toNat
  memoryDepth : budget.memoryDepth.toNat ≤ budget'.memoryDepth.toNat
  latentWidth : budget.latentWidth.toNat ≤ budget'.latentWidth.toNat
  verificationThreshold :
    budget.verificationThreshold.le budget'.verificationThreshold = true

/-- A task that is no easier gets no smaller a budget. -/
theorem route_mono (hconfig : controller.config.Sane)
    (h : NoEasier controller signals riskClass signals' riskClass') :
    (controller.route signals riskClass).budget.AtMost
        (controller.route signals' riskClass').budget ∧
      (controller.route signals riskClass).score.le (controller.route signals' riskClass').score =
        true ∧
      (controller.route signals riskClass).tier.rank ≤
        (controller.route signals' riskClass').tier.rank := by
  have hraw := raw_score_mono hconfig h
  have hscore : (clamp01 (controller.rawScore signals riskClass)).le
      (clamp01 (controller.rawScore signals' riskClass')) = true := by
    obtain ⟨a, b, ha, hb, -, hle, -⟩ := clamp01_mono hraw
    rw [ha, hb]
    exact finite_le_finite.mpr hle
  obtain ⟨low, high, hlow, hhigh, hpos, hle, hexact⟩ := hconfig.threshold
  have hiterations := (scale_u32_mono hconfig.iterations hscore).2.1
  have hdepth := (scale_u32_mono hconfig.memoryDepth hscore).2.1
  have hwidth := (scale_u32_mono hconfig.latentWidth hscore).2.1
  have hthreshold := scale_f32_mono hpos hle hexact hscore
  rw [← hlow, ← hhigh] at hthreshold
  refine ⟨?_, hscore, tier_mono hscore⟩
  unfold ReasoningBudgetController.route
  dsimp only
  by_cases hfirst : riskClass.protectsVerificationFloor = true
  · rw [if_pos hfirst, if_pos (h.protects hfirst)]
    refine ⟨?_, hdepth, hwidth, max_le_max hthreshold _⟩
    show (Max.max _ _ : UInt32).toNat ≤ (Max.max _ _ : UInt32).toNat
    rw [u32_max_to_nat, u32_max_to_nat]
    exact max_le_max_right _ hiterations
  · rw [if_neg hfirst]
    split
    · refine ⟨?_, hdepth, hwidth, le_trans hthreshold (le_max_left (ne_nan_of_le hthreshold).2 _)⟩
      show _ ≤ (Max.max _ _ : UInt32).toNat
      rw [u32_max_to_nat]
      exact hiterations.trans (Nat.le_max_left _ _)
    · exact ⟨hiterations, hdepth, hwidth, hthreshold⟩

end Route

/-! ## Sessions -/

section Session

variable {controller : ReasoningBudgetController} {budget budget' : ReasoningBudget}
  {riskClass riskClass' : RiskClass} {measurement : IterationMeasurement}

/-- A session goes on when no rule stops it. -/
theorem evaluate_step_continue_iff :
    (controller.evaluateStep budget measurement riskClass).outcome = .continue ↔
      ¬ (controller.config.minIterations ≤ measurement.iteration ∧
          measurement.convergenceDelta.le controller.config.convergenceEpsilon = true ∧
          budget.verificationThreshold.le measurement.verifierConfidence = true ∧
          measurement.policySafe = true ∧
          measurement.riskSignal.le (controller.riskCeiling riskClass) = true) ∧
        measurement.iteration < budget.iterations ∧
        measurement.latencyUsedFraction.lt controller.config.latencyBudgetCeiling = true := by
  unfold ReasoningBudgetController.evaluateStep
  dsimp only
  split_ifs with h1 h2 h3 <;> simp_all

/-- With the same measurement, a task with a larger budget goes on where one with a smaller budget
does. -/
theorem continue_mono (hbudget : budget.AtMost budget')
    (hrisk : (controller.riskCeiling riskClass').le (controller.riskCeiling riskClass) = true ∨
      riskClass = riskClass')
    (h : (controller.evaluateStep budget measurement riskClass).outcome = .continue) :
    (controller.evaluateStep budget' measurement riskClass').outcome = .continue := by
  rw [evaluate_step_continue_iff] at h ⊢
  obtain ⟨hblocked, hceiling, hlatency⟩ := h
  refine ⟨fun ⟨hmin, hconverged, hconfident, hsafe, hrisky⟩ => hblocked
    ⟨hmin, hconverged, le_trans hbudget.verificationThreshold hconfident, hsafe, ?_⟩, ?_, hlatency⟩
  · rcases hrisk with hle | rfl
    · exact le_trans hrisky hle
    · exact hrisky
  · exact UInt32.lt_iff_toNat_lt.mpr
      ((UInt32.lt_iff_toNat_lt.mp hceiling).trans_le hbudget.iterations)

/-- A session with a larger budget is no shorter. -/
theorem session_length_mono (hbudget : budget.AtMost budget')
    (hrisk : (controller.riskCeiling riskClass').le (controller.riskCeiling riskClass) = true ∨
      riskClass = riskClass') (measurements : List IterationMeasurement) :
    (controller.session budget riskClass measurements).length ≤
      (controller.session budget' riskClass' measurements).length := by
  induction measurements with
  | nil => exact le_rfl
  | cons measurement measurements ih =>
      rw [ReasoningBudgetController.session, ReasoningBudgetController.session]
      rw [List.length_cons, List.length_cons]
      refine Nat.succ_le_succ ?_
      split
      · rw [if_pos (continue_mono hbudget hrisk (by assumption))]
        exact ih
      · exact Nat.zero_le _

/-- Measurements numbered from some iteration on. -/
def Numbered : Nat → List IterationMeasurement → Prop
  | _, [] => True
  | k, measurement :: rest => measurement.iteration.toNat = k ∧ Numbered (k + 1) rest

/-- A task goes on no longer than to the iterations of its budget, and stops there. -/
theorem session_stops {k : Nat} {measurements : List IterationMeasurement}
    (h : Numbered k measurements) :
    (controller.session budget riskClass measurements).length ≤
        Max.max 1 (budget.iterations.toNat + 1 - k) ∧
      (Max.max 1 (budget.iterations.toNat + 1 - k) ≤ measurements.length →
        ∃ reason, (controller.session budget riskClass measurements).getLast?.map
          StepDecision.outcome = some (.stop reason)) := by
  induction measurements generalizing k with
  | nil => exact ⟨Nat.zero_le _, fun hlength => absurd hlength (by simp)⟩
  | cons measurement measurements ih =>
      obtain ⟨hiteration, hrest⟩ := h
      obtain ⟨hlength, hstops⟩ := ih hrest
      rw [ReasoningBudgetController.session]
      rcases houtcome : (controller.evaluateStep budget measurement riskClass).outcome with
        _ | reason
      · have hceiling := (evaluate_step_continue_iff.mp houtcome).2.1
        rw [UInt32.lt_iff_toNat_lt, hiteration] at hceiling
        rw [if_pos rfl, List.length_cons, List.length_cons]
        refine ⟨by omega, fun henough => ?_⟩
        obtain ⟨reason, hreason⟩ := hstops (by omega)
        obtain ⟨last, hlast, hstop⟩ := Option.map_eq_some_iff.mp hreason
        refine ⟨reason, ?_⟩
        rw [List.getLast?_cons, hlast]
        exact congrArg some hstop
      · rw [if_neg StopOutcome.noConfusion, List.length_singleton]
        exact ⟨Nat.le_max_left _ _, fun _ => ⟨reason, congrArg some houtcome⟩⟩

end Session

/-- A task that is no easier gets no smaller a budget, and with the same measurements it goes on for
no fewer iterations, up to those of its budget, where it stops. -/
theorem effort_follows_difficulty (controller : ReasoningBudgetController)
    (hconfig : controller.config.Sane) {signals signals' : DifficultySignals}
    {riskClass riskClass' : RiskClass}
    (h : NoEasier controller signals riskClass signals' riskClass')
    (measurements : List IterationMeasurement) :
    let decision := controller.route signals riskClass
    let decision' := controller.route signals' riskClass'
    let session := controller.session decision.budget riskClass measurements
    let session' := controller.session decision'.budget riskClass' measurements
    decision.budget.AtMost decision'.budget ∧
      decision.score.le decision'.score = true ∧ decision.tier.rank ≤ decision'.tier.rank ∧
      session.length ≤ session'.length ∧
      (Numbered 1 measurements →
        session'.length ≤ Max.max 1 decision'.budget.iterations.toNat ∧
        (Max.max 1 decision'.budget.iterations.toNat ≤ measurements.length →
          ∃ reason, session'.getLast?.map StepDecision.outcome = some (.stop reason))) := by
  dsimp only
  obtain ⟨hbudget, hscore, htier⟩ := route_mono hconfig h
  refine ⟨hbudget, hscore, htier, session_length_mono hbudget ?_ measurements, session_stops⟩
  rcases h.riskClass with rfl | ⟨-, hceiling⟩
  · exact Or.inr rfl
  · exact Or.inl hceiling

/-- The float nearest to a small number that is not negative is a weight. -/
theorem weight_of_rat {a : ℚ} (hround : ofRat a = .finite (nearest32 a))
    (hpos : 0 ≤ nearest32 a) (hexact : Exact (nearest32 a)) : Weight (ofRat a) :=
  ⟨nearest32 a, hround, hpos, hexact⟩

/-- The default configuration is one that the signals move the right way. -/
theorem ControllerConfig.default_sane : ControllerConfig.default.Sane where
  uncertainty := weight_of_rat (by decide +kernel) (by decide +kernel) (by decide +kernel)
  structuralDifficulty := weight_of_rat (by decide +kernel) (by decide +kernel) (by decide +kernel)
  novelty := weight_of_rat (by decide +kernel) (by decide +kernel) (by decide +kernel)
  historicalFailureRate :=
    weight_of_rat (by decide +kernel) (by decide +kernel) (by decide +kernel)
  risk := weight_of_rat (by decide +kernel) (by decide +kernel) (by decide +kernel)
  latencyPressure := weight_of_rat (by decide +kernel) (by decide +kernel) (by decide +kernel)
  energyPressure := weight_of_rat (by decide +kernel) (by decide +kernel) (by decide +kernel)
  iterations := by decide
  memoryDepth := by decide
  latentWidth := by decide
  threshold := ⟨nearest32 (5 / 10), nearest32 (9 / 10), by decide +kernel, by decide +kernel,
    by decide +kernel, by decide +kernel, by decide +kernel⟩

/-- Signals of which nothing is known but how hard and how pressed the task is. -/
def sampleSignals (difficulty pressure : Binary32) : DifficultySignals where
  uncertainty := difficulty
  structuralDifficulty := difficulty
  novelty := difficulty
  historicalFailureRate := difficulty
  risk := difficulty
  latencyPressure := pressure
  energyPressure := pressure

/-- A pressed routine task and one that is critical, with one measurement. -/
theorem effort_follows_difficulty_critical :
    let controller : ReasoningBudgetController := ⟨.default⟩
    let measurements : List IterationMeasurement := [⟨1, .finite 0, ofRat (8 / 10), true, .finite 0,
      .finite 0⟩]
    let easy := controller.route (sampleSignals (.finite (1 / 4)) (.finite 1)) .routine
    let hard := controller.route (sampleSignals (.infinite false) .nan) .safetyCritical
    (controller.session easy.budget .routine measurements).length ≤
      (controller.session hard.budget .safetyCritical measurements).length := by
  have hpressure : Relieved .routine .safetyCritical (.finite 1) .nan :=
    Or.inr (Or.inl ⟨rfl, Binary32.noConfusion⟩)
  have h : NoEasier ⟨.default⟩ (sampleSignals (.finite (1 / 4)) (.finite 1)) .routine
      (sampleSignals (.infinite false) .nan) .safetyCritical :=
    ⟨rfl, rfl, rfl, rfl, rfl, hpressure, hpressure, Or.inr ⟨fun _ => rfl, by decide +kernel⟩⟩
  exact (effort_follows_difficulty ⟨.default⟩ ControllerConfig.default_sane h _).2.2.2.1

end LatentMesh.Reasoning
