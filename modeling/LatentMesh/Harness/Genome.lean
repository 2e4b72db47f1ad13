import LatentMesh.Harness.RoutingAgreement
import LatentMesh.Lib.Guards

/-!
# Representation policies

`genome.mjs`: a policy is a genome of a small lattice. `evaluate` routes it over the evidence and
scores the mode that it picks under one frozen weight vector. Numbers are exact and so all finite;
`showNumber` is the text of a number.
-/

namespace LatentMesh.Harness

open LatentMesh.Reasoning (CostScale CostWeights GainMeasurement)

/-- The values of `MODE`. -/
inductive Channel where
  | text
  | semanticDelta
  | latent
  | silence
  deriving DecidableEq, Repr

/-- The text of a channel. -/
def Channel.name : Channel → String
  | text => "text"
  | semanticDelta => "semantic-delta"
  | latent => "latent"
  | silence => modeNone

/-- The gene `admission`. -/
inductive AdmissionGene where
  | causalGate
  | always
  | never
  deriving DecidableEq, Repr

/-- The text of an admission rule. -/
def AdmissionGene.name : AdmissionGene → String
  | causalGate => "causal-gate"
  | always => "always"
  | never => "never"

/-- A representation policy. -/
structure Genome where
  channel : Channel
  admission : AdmissionGene
  controls : List String
  alpha : ℚ
  costWeights : String
  deriving DecidableEq

/-! ## The lattice -/

/-- The channels of the search. -/
def channels : List Channel := [.text, .semanticDelta, .latent, .silence]

/-- The admission rules of the search. -/
def admissions : List AdmissionGene := [.causalGate, .always, .never]

/-- The level that the evidence is recorded at. -/
def alphaOfRecord : ℚ := 5 / 100

/-- The levels of the search. -/
def alphas : List ℚ := [5 / 100, 1 / 100, 1 / 1000]

/-- The sets of controls of the search. -/
def controlSets : List (List String) :=
  [["random"], ["random", "zero"], ["zero", "random", "mismatched", "self_generated"]]

/-- The weights of the search, by name. -/
def costWeightSets : List (String × CostWeights) :=
  [("equal", ⟨25 / 100, 25 / 100, 25 / 100, 25 / 100⟩),
    ("bandwidth-heavy", ⟨7 / 10, 1 / 10, 1 / 10, 1 / 10⟩),
    ("latency-heavy", ⟨1 / 10, 7 / 10, 1 / 10, 1 / 10⟩),
    ("risk-heavy", ⟨1 / 10, 1 / 10, 1 / 10, 7 / 10⟩)]

/-- The one vector under which genomes are compared. -/
def frozenScoringWeights : CostWeights := ⟨25 / 100, 25 / 100, 25 / 100, 25 / 100⟩

/-- `rootPolicy`. -/
def rootPolicy : Genome where
  channel := .text
  admission := .causalGate
  controls := ["zero", "random", "mismatched", "self_generated"]
  alpha := alphaOfRecord
  costWeights := "equal"

/-- `enumerateGenomes`. -/
def enumerateGenomes : List Genome :=
  channels.flatMap fun channel =>
  admissions.flatMap fun admission =>
  controlSets.flatMap fun controls =>
  alphas.flatMap fun alpha =>
  costWeightSets.map fun weights => ⟨channel, admission, controls, alpha, weights.1⟩

/-! ## Evidence -/

/-- A control of some evidence. -/
structure Control where
  control : String
  correct : ℚ
  finalWealth : ℚ
  deriving DecidableEq

/-- What a receipt has measured. -/
structure Measurement where
  receipt : String
  n : ℚ
  correct : ℚ
  controls : List Control
  ran : 0 < n

/-- What is recorded of a channel for a task. -/
structure Evidence where
  id : String
  channel : Channel
  cost : Cost
  /-- The measurement, or the reason why there is none. -/
  measurement : Except String Measurement

/-- What `evaluate` throws. -/
inductive EvaluateError where
  | unknownCostWeights (name : String)
  | emptyReduce
  | costParity (text : String)
  deriving DecidableEq, Repr

/-- The answers of the gate. -/
inductive AdmissionStatus where
  | unmeasured
  | refused
  | admitted
  deriving DecidableEq, Repr

/-- An answer with its reason. -/
structure Admission where
  status : AdmissionStatus
  gain : GainMeasurement
  reason : String
  worst : Option Control
  rawDelta : Option ℚ
  deriving DecidableEq

/-- The control with the most correct items, the earliest of them. -/
def worstOf (first : Control) (rest : List Control) : Control :=
  rest.foldl (fun a b => if a.correct < b.correct then b else a) first

/-- `Math.min` over the wealth of the controls. -/
def minWealthOf (first : Control) (rest : List Control) : ℚ :=
  rest.foldl (fun least control => min least control.finalWealth) first.finalWealth

variable (showNumber : ℚ → String)

/-- The measured control of a name. Of two with one name, the map holds the later. -/
def controlNamed (controls : List Control) (name : String) : Option Control :=
  controls.reverse.find? fun control => control.control = name

/-- The wealth `1 / alpha` that the gate asks for. The quotient by 0 is `Infinity`. -/
def wealthThreshold (alpha : ℚ) : Option ℚ := if alpha = 0 then none else some (1 / alpha)

/-- The text of a threshold. -/
def showThreshold : Option ℚ → String
  | some threshold => showNumber threshold
  | none => "Infinity"

/-- `admit`. -/
def admitEvidence (evidence : Evidence) (genome : Genome) : Except EvaluateError Admission :=
  match evidence.measurement with
  | .error reason => .ok ⟨.unmeasured, .unmeasured, reason, none, none⟩
  | .ok measurement =>
      if genome.admission = .never then
        .ok ⟨.refused, .measured 0, "policy admission is 'never'", none, none⟩
      else
        let missing := genome.controls.filter fun name =>
          (controlNamed measurement.controls name).isNone
        if 0 < missing.length then
          .ok ⟨.unmeasured, .unmeasured,
            measurement.receipt ++ " has no measured control named " ++ ", ".intercalate missing ++
              "; the policy's required control set was never run against this channel",
            none, none⟩
        else
          match genome.controls.filterMap (controlNamed measurement.controls) with
          | [] => .error .emptyReduce
          | first :: rest =>
              let worst := worstOf first rest
              let rawDelta := (measurement.correct - worst.correct) / measurement.n
              if genome.admission = .always then
                .ok ⟨.admitted, .measured rawDelta,
                  "policy admission is 'always' — no gate applied", some worst, some rawDelta⟩
              else
                let threshold := wealthThreshold genome.alpha
                let minWealth := minWealthOf first rest
                -- no wealth reaches `Infinity`
                if ¬ ∃ wealth ∈ threshold, wealth ≤ minWealth then
                  .ok ⟨.refused, .measured 0,
                    "min wealth " ++ showNumber minWealth ++
                      " across required controls is below 1/alpha = " ++
                      showThreshold showNumber threshold,
                    some worst, some rawDelta⟩
                else
                  .ok ⟨.admitted, .measured rawDelta,
                    "min wealth " ++ showNumber minWealth ++ " >= 1/alpha = " ++
                      showThreshold showNumber threshold, some worst, some rawDelta⟩

/-! ## Evaluation -/

/-- The weights that a policy names. -/
def weightsOf (genome : Genome) : Except EvaluateError CostWeights :=
  match costWeightSets.find? fun entry => entry.1 = genome.costWeights with
  | some entry => .ok entry.2
  | none => .error (.unknownCostWeights genome.costWeights)

/-- A candidate with its admission. -/
structure PolicyCandidate where
  candidate : Candidate
  admission : Admission

/-- `candidatesFor`. -/
def candidatesFor (corpus : List Evidence) (genome : Genome) :
    Except EvaluateError (List PolicyCandidate) :=
  (corpus.filter fun evidence => evidence.channel = genome.channel).mapM fun evidence =>
    (admitEvidence showNumber evidence genome).map fun decision =>
      ⟨⟨evidence.id, evidence.channel.name, decision.gain, evidence.cost⟩, decision⟩

/-- The name of a resource. -/
def Resource.name : Resource → String
  | bytes => "bytes"
  | latencySeconds => "latencySeconds"
  | energyJoules => "energyJoules"
  | risk => "risk"

/-- The resources that a candidate leaves unmeasured. -/
def unmeasuredOf (candidate : Candidate) : List Resource :=
  Resource.all.filter fun resource => (candidate.cost resource).isNone

/-- `assertCostParity`. -/
def assertCostParity (candidates : List Candidate) : Except EvaluateError (List Resource) :=
  let first := (candidates.head?.map unmeasuredOf).getD []
  let listed (resources : List Resource) := ",".intercalate (resources.map Resource.name)
  match candidates.find? fun candidate => unmeasuredOf candidate ≠ first with
  | some candidate =>
      .error (.costParity ("cost parity violated: " ++ candidate.mode ++ "/" ++ candidate.id ++
        " leaves [" ++ listed (unmeasuredOf candidate) ++ "] unmeasured, expected [" ++
        listed first ++ "]"))
  | none => .ok first

/-- What the gate says of a piece of evidence. -/
structure AdmissionEntry where
  id : String
  status : AdmissionStatus
  reason : String
  rawDelta : Option ℚ
  worstControl : Option String
  deriving DecidableEq

/-- What `evaluate` returns; a fitness may be `null`. -/
structure Evaluation where
  genome : Genome
  selected : String
  selectedId : Option String
  fitness : Option ℚ
  routedScore : ℚ
  considered : List Considered
  admissions : List AdmissionEntry
  unmeasuredResources : List Resource
  deriving DecidableEq

/-- The score of what the genome has selected, on the frozen weights. -/
def fitnessOf (routing frozen : Decision) : Option ℚ :=
  match frozen.considered.find? fun entry => some entry.id = routing.selectedId with
  | none => some 0
  | some chosen => if routing.selected = modeNone then some 0 else chosen.outcome.score?

/-- `evaluate`: the evidence is admitted, the candidates are routed, and the choice is scored. -/
def evaluate (corpus : List Evidence) (scale : CostScale) (genome : Genome) :
    Except EvaluateError Evaluation :=
  (candidatesFor showNumber corpus genome).bind fun candidates =>
  (assertCostParity ((candidates.map PolicyCandidate.candidate).filter fun candidate =>
    candidate.gain ≠ .unmeasured)).bind fun unmeasuredResources =>
  (weightsOf genome).bind fun weights =>
    let routing := route (candidates.map PolicyCandidate.candidate) scale weights
    let frozen := route (candidates.map PolicyCandidate.candidate) scale frozenScoringWeights
    .ok
      { genome
        selected := routing.selected
        selectedId := routing.selectedId
        fitness := fitnessOf routing frozen
        routedScore := routing.selectedScore
        considered := routing.considered
        admissions := candidates.map fun candidate =>
          ⟨candidate.candidate.id, candidate.admission.status, candidate.admission.reason,
            candidate.admission.rawDelta, candidate.admission.worst.map Control.control⟩
        unmeasuredResources }

end LatentMesh.Harness
