import LatentMesh.Core.Binary32Order

/-!
# Reasoning budgets

`ReasoningBudgetController` of `budget.rs`: `route` turns the signals of a task into a budget, and
`evaluateStep` says after each iteration whether to go on.
-/

namespace LatentMesh.Reasoning

open LatentMesh.Core Binary32

/-- `clamp01`. -/
def clamp01 (x : Binary32) : Binary32 := x.clamp (.finite 0) (.finite 1)

/-- `scale_u32`. -/
def scaleU32 (lo hi : UInt32) (t : Binary32) : UInt32 :=
  if hi ≤ lo then lo else lo + (((ofU32 (hi - lo)).mul (clamp01 t)).round).toU32

/-- `scale_f32`. -/
def scaleF32 (lo hi t : Binary32) : Binary32 := lo.add ((hi.sub lo).mul (clamp01 t))

/-- What is known of a task. -/
structure DifficultySignals where
  uncertainty : Binary32
  structuralDifficulty : Binary32
  novelty : Binary32
  historicalFailureRate : Binary32
  risk : Binary32
  latencyPressure : Binary32
  energyPressure : Binary32

/-- The weights of the signals. -/
structure BudgetWeights where
  uncertainty : Binary32
  structuralDifficulty : Binary32
  novelty : Binary32
  historicalFailureRate : Binary32
  risk : Binary32
  latencyPressure : Binary32
  energyPressure : Binary32

/-- `BudgetWeights::default`. -/
def BudgetWeights.default : BudgetWeights where
  uncertainty := ofRat (25 / 100)
  structuralDifficulty := ofRat (25 / 100)
  novelty := ofRat (15 / 100)
  historicalFailureRate := ofRat (20 / 100)
  risk := ofRat (15 / 100)
  latencyPressure := ofRat (15 / 100)
  energyPressure := ofRat (10 / 100)

/-- The classes of risk. -/
inductive RiskClass where
  | routine
  | elevated
  | safetyCritical
  deriving DecidableEq

/-- `RiskClass::protects_verification_floor`. -/
def RiskClass.protectsVerificationFloor : RiskClass → Bool
  | safetyCritical => true
  | _ => false

/-- The parameters of the controller. -/
structure ControllerConfig where
  minIterations : UInt32
  maxIterations : UInt32
  minMemoryDepth : UInt32
  maxMemoryDepth : UInt32
  minLatentWidth : UInt32
  maxLatentWidth : UInt32
  minVerificationThreshold : Binary32
  maxVerificationThreshold : Binary32
  safetyCriticalIterationFloor : UInt32
  safetyCriticalVerificationFloor : Binary32
  convergenceEpsilon : Binary32
  latencyBudgetCeiling : Binary32
  riskCeilingRoutine : Binary32
  riskCeilingElevated : Binary32
  riskCeilingSafetyCritical : Binary32
  weights : BudgetWeights

/-- `ControllerConfig::default`. -/
def ControllerConfig.default : ControllerConfig where
  minIterations := 1
  maxIterations := 8
  minMemoryDepth := 1
  maxMemoryDepth := 4
  minLatentWidth := 64
  maxLatentWidth := 512
  minVerificationThreshold := ofRat (5 / 10)
  maxVerificationThreshold := ofRat (9 / 10)
  safetyCriticalIterationFloor := 4
  safetyCriticalVerificationFloor := ofRat (85 / 100)
  convergenceEpsilon := ofRat (1 / 100)
  latencyBudgetCeiling := ofRat 1
  riskCeilingRoutine := ofRat (5 / 10)
  riskCeilingElevated := ofRat (3 / 10)
  riskCeilingSafetyCritical := ofRat (1 / 10)
  weights := .default

/-- What a task may spend. -/
structure ReasoningBudget where
  iterations : UInt32
  memoryDepth : UInt32
  latentWidth : UInt32
  verificationThreshold : Binary32

/-- The tiers of a budget. -/
inductive BudgetTier where
  | low
  | medium
  | high
  deriving DecidableEq

/-- `BudgetTier::from_score`. -/
def BudgetTier.fromScore (score : Binary32) : BudgetTier :=
  let s := clamp01 score
  if s.lt (ofRat (1 / 3)) then low
  else if s.lt (ofRat (2 / 3)) then medium
  else high

/-- The place of a tier. -/
def BudgetTier.rank : BudgetTier → Nat
  | low => 0
  | medium => 1
  | high => 2

/-- A budget with the reasons for it. -/
structure RoutingDecision where
  budget : ReasoningBudget
  tier : BudgetTier
  score : Binary32

/-- What is measured of an iteration. -/
structure IterationMeasurement where
  iteration : UInt32
  convergenceDelta : Binary32
  verifierConfidence : Binary32
  policySafe : Bool
  riskSignal : Binary32
  latencyUsedFraction : Binary32

/-- The rules that were looked at for a step. -/
structure RuleTrace where
  minIterationsMet : Bool
  convergenceSatisfied : Bool
  confidenceSatisfied : Bool
  riskSatisfied : Bool
  policySafe : Bool
  latencySatisfied : Bool
  ceilingSatisfied : Bool

/-- Why a session stops. -/
inductive StopReason where
  | converged
  | computeCeiling
  | latencyBudgetExceeded
  deriving DecidableEq

/-- Whether a session goes on. -/
inductive StopOutcome where
  | continue
  | stop (reason : StopReason)
  deriving DecidableEq

/-- A decision with the rules behind it. -/
structure StepDecision where
  iteration : UInt32
  rules : RuleTrace
  outcome : StopOutcome

/-- The controller. -/
structure ReasoningBudgetController where
  config : ControllerConfig

namespace ReasoningBudgetController

variable (self : ReasoningBudgetController)

/-- The risk that a class tolerates. -/
def riskCeiling : RiskClass → Binary32
  | .routine => self.config.riskCeilingRoutine
  | .elevated => self.config.riskCeilingElevated
  | .safetyCritical => self.config.riskCeilingSafetyCritical

/-- What a pressure takes off the score. -/
def pressureTerm (riskClass : RiskClass) (weight pressure : Binary32) : Binary32 :=
  if riskClass.protectsVerificationFloor then .finite 0 else weight.mul (clamp01 pressure)

/-- The score before it is clamped. -/
def rawScore (signals : DifficultySignals) (riskClass : RiskClass) : Binary32 :=
  let w := self.config.weights
  ((((((w.uncertainty.mul (clamp01 signals.uncertainty)).add
    (w.structuralDifficulty.mul (clamp01 signals.structuralDifficulty))).add
    (w.novelty.mul (clamp01 signals.novelty))).add
    (w.risk.mul (clamp01 signals.risk))).add
    (w.historicalFailureRate.mul (clamp01 signals.historicalFailureRate))).sub
    (pressureTerm riskClass w.latencyPressure signals.latencyPressure)).sub
    (pressureTerm riskClass w.energyPressure signals.energyPressure)

/-- `ReasoningBudgetController::route`. -/
def route (signals : DifficultySignals) (riskClass : RiskClass) : RoutingDecision :=
  let score := clamp01 (self.rawScore signals riskClass)
  let cfg := self.config
  let iterations := scaleU32 cfg.minIterations cfg.maxIterations score
  let memoryDepth := scaleU32 cfg.minMemoryDepth cfg.maxMemoryDepth score
  let latentWidth := scaleU32 cfg.minLatentWidth cfg.maxLatentWidth score
  let verificationThreshold :=
    scaleF32 cfg.minVerificationThreshold cfg.maxVerificationThreshold score
  let budget : ReasoningBudget :=
    if riskClass.protectsVerificationFloor then
      { iterations := Max.max iterations cfg.safetyCriticalIterationFloor
        memoryDepth, latentWidth
        verificationThreshold := verificationThreshold.max cfg.safetyCriticalVerificationFloor }
    else { iterations, memoryDepth, latentWidth, verificationThreshold }
  { budget, tier := .fromScore score, score }

/-- `ReasoningBudgetController::evaluate_step`. -/
def evaluateStep (budget : ReasoningBudget) (measurement : IterationMeasurement)
    (riskClass : RiskClass) : StepDecision :=
  let cfg := self.config
  let rules : RuleTrace :=
    { minIterationsMet := decide (cfg.minIterations ≤ measurement.iteration)
      convergenceSatisfied := measurement.convergenceDelta.le cfg.convergenceEpsilon
      confidenceSatisfied := budget.verificationThreshold.le measurement.verifierConfidence
      riskSatisfied := measurement.riskSignal.le (self.riskCeiling riskClass)
      policySafe := measurement.policySafe
      latencySatisfied := measurement.latencyUsedFraction.lt cfg.latencyBudgetCeiling
      ceilingSatisfied := decide (measurement.iteration < budget.iterations) }
  let converged := rules.minIterationsMet && rules.convergenceSatisfied &&
    rules.confidenceSatisfied && rules.policySafe && rules.riskSatisfied
  let outcome :=
    if converged then .stop .converged
    else if !rules.ceilingSatisfied then .stop .computeCeiling
    else if !rules.latencySatisfied then .stop .latencyBudgetExceeded
    else .continue
  { iteration := measurement.iteration, rules, outcome }

/-- The decisions of a task, up to the one that stops it. -/
def session (budget : ReasoningBudget) (riskClass : RiskClass) :
    List IterationMeasurement → List StepDecision
  | [] => []
  | measurement :: rest =>
      let decision := self.evaluateStep budget measurement riskClass
      decision :: if decision.outcome = .continue then session budget riskClass rest else []

end ReasoningBudgetController

end LatentMesh.Reasoning
