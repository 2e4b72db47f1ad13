import LatentMesh.Reasoning.Routing

/-!
# The router of the harness

`route` and `utilityDensity` of `routing.mjs` over exact numbers, which are all finite. A cost that
was never measured is `none`.
-/

namespace LatentMesh.Harness

open LatentMesh.Reasoning (CostScale CostWeights GainMeasurement)

/-- `RESOURCES`. -/
inductive Resource where
  | bytes
  | latencySeconds
  | energyJoules
  | risk
  deriving DecidableEq, Repr

namespace Resource

/-- The resources in the order of the source. -/
def all : List Resource := [bytes, latencySeconds, energyJoules, risk]

/-- `scale[resource]`. -/
def scale (scale : CostScale) : Resource → ℚ
  | bytes => scale.bytes
  | latencySeconds => scale.latencySeconds
  | energyJoules => scale.energyJoules
  | risk => scale.risk

/-- `weights[WEIGHT_OF_RESOURCE[resource]]`. -/
def weight (weights : CostWeights) : Resource → ℚ
  | bytes => weights.bandwidth
  | latencySeconds => weights.latency
  | energyJoules => weights.energy
  | risk => weights.risk

end Resource

/-- A cost with `null` for a resource that was not measured. -/
abbrev Cost := Resource → Option ℚ

/-- The texts of `error`. -/
inductive DensityError where
  | invalidCost
  | invalidScale
  | noMeasuredResource
  | invalidWeights
  | zeroCost
  deriving DecidableEq, Repr

/-- A resource that takes part in the sum. -/
structure Term where
  normalised : ℚ
  weight : ℚ
  deriving DecidableEq

/-- The loop over the resources. -/
def presentTerms (cost : Cost) (scale : CostScale) (weights : CostWeights) :
    List Resource → List Term → Except DensityError (List Term)
  | [], present => .ok present
  | resource :: resources, present =>
      match cost resource with
      | none => presentTerms cost scale weights resources present
      | some raw =>
          if raw < 0 then .error .invalidCost
          else if resource.scale scale ≤ 0 then .error .invalidScale
          else
            presentTerms cost scale weights resources
              (present ++ [⟨raw / resource.scale scale, resource.weight weights⟩])

/-- `utilityDensity`: the gain over the weighted costs that are known. -/
def utilityDensity (deltaV : ℚ) (cost : Cost) (scale : CostScale) (weights : CostWeights) :
    Except DensityError ℚ :=
  (presentTerms cost scale weights Resource.all []).bind fun present =>
    if present.length = 0 then .error .noMeasuredResource
    else
      let weightSum := present.foldl (fun total term => total + term.weight) 0
      if ¬ 0 < weightSum then .error .invalidWeights
      else
        let denominator :=
          present.foldl (fun total term => total + term.weight / weightSum * term.normalised) 0
        if ¬ 0 < denominator then .error .zeroCost else .ok (deltaV / denominator)

/-- A channel that may be chosen. -/
structure Candidate where
  id : String
  mode : String
  gain : GainMeasurement
  cost : Cost

/-- What is found about a candidate. -/
inductive Outcome where
  | unmeasured
  | invalid (error : DensityError)
  | scored (score : ℚ)
  deriving DecidableEq

/-- The score, where there is one. -/
def Outcome.score? : Outcome → Option ℚ
  | scored score => some score
  | _ => none

/-- A candidate with what is found about it. -/
structure Considered where
  id : String
  mode : String
  outcome : Outcome
  deriving DecidableEq

/-- What `route` returns. -/
structure Decision where
  selected : String
  selectedId : Option String
  selectedScore : ℚ
  considered : List Considered
  deriving DecidableEq

/-- `MODE.None`. -/
def modeNone : String := "None"

/-- A turn of the loop of `route`. -/
def consider (scale : CostScale) (weights : CostWeights) (decision : Decision)
    (candidate : Candidate) : Decision :=
  match candidate.gain with
  | .unmeasured =>
      { decision with
        considered := decision.considered ++ [⟨candidate.id, candidate.mode, .unmeasured⟩] }
  | .measured deltaV =>
      match utilityDensity deltaV candidate.cost scale weights with
      | .error error =>
          { decision with
            considered := decision.considered ++ [⟨candidate.id, candidate.mode, .invalid error⟩] }
      | .ok score =>
          let considered := decision.considered ++ [⟨candidate.id, candidate.mode, .scored score⟩]
          if decision.selectedScore < score then
            { selected := candidate.mode, selectedId := some candidate.id, selectedScore := score
              considered }
          else { decision with considered }

/-- `route`: the candidate of the greatest utility density among those with a gain, the first of
equals. -/
def route (candidates : List Candidate) (scale : CostScale) (weights : CostWeights) : Decision :=
  candidates.foldl (consider scale weights)
    { selected := modeNone, selectedId := none, selectedScore := 0, considered := [] }

end LatentMesh.Harness
