import Mathlib.Algebra.Order.Field.Rat

/-!
# The representation router

`RepresentationRouter::route` of `routing.rs` over exact numbers, which are all finite: the score of
a candidate, and the loop that keeps the first candidate whose score beats the best one so far.
Silence always scores zero.
-/

namespace LatentMesh.Reasoning

/-- What a mode costs. -/
structure ResourceCost where
  bytes : ℚ
  latencySeconds : ℚ
  energyJoules : ℚ
  risk : ℚ
  deriving DecidableEq

/-- The units of the costs. -/
structure CostScale where
  bytes : ℚ
  latencySeconds : ℚ
  energyJoules : ℚ
  risk : ℚ
  deriving DecidableEq

/-- The weights of the costs. -/
structure CostWeights where
  bandwidth : ℚ
  latency : ℚ
  energy : ℚ
  risk : ℚ
  deriving DecidableEq

/-- `ResourceCost::is_finite_and_nonnegative`. -/
def ResourceCost.isFiniteAndNonnegative (self : ResourceCost) : Bool :=
  [self.bytes, self.latencySeconds, self.energyJoules, self.risk].all fun x => decide (0 ≤ x)

/-- `CostScale::is_valid`. -/
def CostScale.isValid (self : CostScale) : Bool :=
  [self.bytes, self.latencySeconds, self.energyJoules, self.risk].all fun x => decide (0 < x)

/-- Why a mode has no utility density. -/
inductive UtilityDensityError where
  | invalidScale
  | invalidCost
  | zeroCost
  deriving DecidableEq

/-- `utility_density`: the gain over the weighted costs. -/
def utilityDensity (deltaV : ℚ) (cost : ResourceCost) (scale : CostScale) (weights : CostWeights) :
    Except UtilityDensityError ℚ :=
  if ¬ scale.isValid then .error .invalidScale
  else if ¬ cost.isFiniteAndNonnegative then .error .invalidCost
  else
    let denom := weights.bandwidth * (cost.bytes / scale.bytes) +
      weights.latency * (cost.latencySeconds / scale.latencySeconds) +
      weights.energy * (cost.energyJoules / scale.energyJoules) +
      weights.risk * (cost.risk / scale.risk)
    if denom ≤ 0 then .error .zeroCost else .ok (deltaV / denom)

/-- The modes of representation. -/
inductive RepresentationMode where
  | none
  | text
  | symbolicDelta
  | sparseFeature
  | hiddenPrefix
  | multiLayerLatent
  | kvState
  | recurrentCheckpoint
  deriving DecidableEq, Repr

/-- Whether the gain of a candidate has ever been measured, and as what. -/
inductive GainMeasurement where
  | unmeasured
  | measured (deltaV : ℚ)
  deriving DecidableEq

/-- A mode with its gain and costs. -/
structure ModeCandidate where
  mode : RepresentationMode
  gain : GainMeasurement
  cost : ResourceCost
  deriving DecidableEq

/-- What is found about a mode. -/
inductive ScoreOutcome where
  | unmeasured
  | invalid
  | scored (score : ℚ)
  deriving DecidableEq

/-- The score, where there is one. -/
def ScoreOutcome.score? : ScoreOutcome → Option ℚ
  | scored score => some score
  | _ => none

/-- The mode that is chosen, with what was considered. -/
structure RouteDecision where
  selected : RepresentationMode
  selectedScore : ℚ
  considered : List (RepresentationMode × ScoreOutcome)
  deriving DecidableEq

/-- The router. -/
structure RepresentationRouter where
  scale : CostScale
  weights : CostWeights
  deriving DecidableEq

namespace RepresentationRouter

/-- A turn of the loop of `route`. -/
def consider (self : RepresentationRouter) (decision : RouteDecision) (candidate : ModeCandidate) :
    RouteDecision :=
  match candidate.gain with
  | .unmeasured =>
      { decision with considered := decision.considered ++ [(candidate.mode, .unmeasured)] }
  | .measured deltaV =>
      match utilityDensity deltaV candidate.cost self.scale self.weights with
      | .ok score =>
          let considered := decision.considered ++ [(candidate.mode, .scored score)]
          if decision.selectedScore < score then
            { selected := candidate.mode, selectedScore := score, considered }
          else { decision with considered }
      | .error _ =>
          { decision with considered := decision.considered ++ [(candidate.mode, .invalid)] }

/-- `RepresentationRouter::route`. -/
def route (self : RepresentationRouter) (candidates : List ModeCandidate) : RouteDecision :=
  candidates.foldl self.consider { selected := .none, selectedScore := 0, considered := [] }

end RepresentationRouter

end LatentMesh.Reasoning
