import Mathlib.Data.Rat.Floor
import Mathlib.Data.String.Basic
import LatentMesh.Harness.Admitted
import LatentMesh.Lib.SortedMap

/-!
# The search for a policy

`runEvolve` and `exhaustiveChampion` of `evolve.mjs`, with the promotion rule of `genome.mjs`: hill
climbing with restarts, against the best policy of the whole lattice.
-/

namespace LatentMesh.Harness

open LatentMesh.Reasoning (CostScale)
open LatentMesh.Lib

/-! ## The promotion rule -/

variable (showNumber : ℚ → String)

/-- `ToNumber` of a fitness. -/
def Evaluation.number (self : Evaluation) : ℚ := self.fitness.getD 0

/-- The controls that are measured for a channel. -/
def availableControls (corpus : List Evidence) (channel : Channel) : List String :=
  (corpus.flatMap fun evidence =>
    match evidence.measurement with
    | .ok measurement =>
        if evidence.channel = channel then measurement.controls.map Control.control else []
    | .error _ => []).eraseDups

/-- The reasons against a candidate that do not depend on the incumbent. -/
def floorReasons (corpus : List Evidence) (candidate : Evaluation) : List String :=
  ((availableControls corpus candidate.genome.channel).filter fun control =>
      control ∉ candidate.genome.controls).map (fun control =>
    "weakens the bar: control '" ++ control ++
      "' is measured for this channel but not required by the policy") ++
  (if alphaOfRecord < candidate.genome.alpha then
    ["alpha " ++ showNumber candidate.genome.alpha ++ " is looser than the pre-registered " ++
      showNumber alphaOfRecord]
  else []) ++
  (if candidate.selected ≠ modeNone then
    match candidate.admissions.find? fun entry => some entry.id = candidate.selectedId with
    | none => ["routes to " ++ candidate.selected ++ " which was not admitted"]
    | some entry =>
        if entry.status = .admitted then []
        else ["routes to " ++ candidate.selected ++ " which was not admitted"]
  else [])

/-- `promotionRule`: the reasons against a candidate. Every fitness is better than no incumbent. -/
def promotionRule (corpus : List Evidence) (candidate : Evaluation)
    (incumbent : Option Evaluation) : List String :=
  (match incumbent with
    | some incumbent =>
        if ¬ incumbent.number < candidate.number then
          ["fitness does not strictly improve on the incumbent"]
        else []
    | none => []) ++ floorReasons showNumber corpus candidate

/-! ## Random numbers -/

/-- A stream of numbers from zero to below one. -/
structure Rng (σ : Type) where
  next : σ → σ × ℚ
  range : ∀ state, 0 ≤ (next state).2 ∧ (next state).2 < 1

/-- A turn of `mulberry32`. -/
def mulberry32 (state : UInt32) : UInt32 × ℚ :=
  let state := state + 0x6d2b79f5
  let t := (state ^^^ (state >>> 15)) * (state ||| 1)
  let t := t ^^^ (t + (t ^^^ (t >>> 7)) * (t ||| 61))
  (state, ((t ^^^ (t >>> 14)).toNat : ℚ) / 4294967296)

/-- `makeRng`. -/
def makeRng : Rng UInt32 where
  next := mulberry32
  range state := by
    have hpos : (0 : ℚ) < 4294967296 := by norm_num
    refine ⟨div_nonneg (Nat.cast_nonneg _) (le_of_lt hpos), (div_lt_one hpos).mpr ?_⟩
    exact_mod_cast UInt32.toNat_lt _

/-- `Math.floor(rng() * count)`. -/
def scaled (number : ℚ) (count : Nat) : Nat := ⌊number * count⌋.toNat

variable {σ : Type} (rng : Rng σ)

/-- A random value of a domain. -/
def choose {α : Type} (domain : List α) (fallback : α) (state : σ) : σ × α :=
  let drawn := rng.next state
  (drawn.1, domain.getD (scaled drawn.2 domain.length) fallback)

/-- A random step through a domain, from the current value to another one. -/
def stepIn {α : Type} (domain : List α) (current : α) (same : α → Bool) (number : ℚ) : α :=
  let step := 1 + scaled number (domain.length - 1)
  domain.getD (((domain.findIdx? same).getD 0 + step) % domain.length) current

/-- `GENE_NAMES`. -/
inductive Gene where
  | channel
  | admission
  | controls
  | alpha
  | costWeights
  deriving DecidableEq, Repr

/-- The genes that a mutation chooses from. -/
def geneNames : List Gene := [.channel, .admission, .controls, .alpha, .costWeights]

/-- Controls as one text. -/
def joined (controls : List String) : String := "+".intercalate controls

/-- The names of the weights. -/
def costWeightNames : List String := costWeightSets.map Prod.fst

/-- Another value for one gene. -/
def mutateGene (genome : Genome) (gene : Gene) (number : ℚ) : Genome :=
  match gene with
  | .channel =>
      { genome with
        channel := stepIn channels genome.channel (fun value => value = genome.channel) number }
  | .admission =>
      { genome with
        admission :=
          stepIn admissions genome.admission (fun value => value = genome.admission) number }
  | .controls =>
      { genome with
        controls := stepIn controlSets genome.controls
          (fun value => joined value = joined genome.controls) number }
  | .alpha =>
      { genome with alpha := stepIn alphas genome.alpha (fun value => value = genome.alpha) number }
  | .costWeights =>
      { genome with
        costWeights := stepIn costWeightNames genome.costWeights
          (fun value => value = genome.costWeights) number }

/-- `mutate`. -/
def mutate (genome : Genome) (state : σ) : σ × Genome :=
  let gene := choose rng geneNames .channel state
  let drawn := rng.next gene.1
  (drawn.1, mutateGene genome gene.2 drawn.2)

/-- The random point of a restart. -/
def restart (state : σ) : σ × Genome :=
  let channel := choose rng channels .text state
  let admission := choose rng admissions .causalGate channel.1
  let controls := choose rng controlSets [] admission.1
  let alpha := choose rng alphas alphaOfRecord controls.1
  let costWeights := choose rng costWeightNames "equal" alpha.1
  (costWeights.1, ⟨channel.2, admission.2, controls.2, alpha.2, costWeights.2⟩)

/-! ## The loops -/

/-- The key of a policy in the cache. -/
def genomeKey (genome : Genome) : String :=
  genome.channel.name ++ "|" ++ genome.admission.name ++ "|" ++ joined genome.controls ++ "|" ++
    showNumber genome.alpha ++ "|" ++ genome.costWeights

/-- What is recorded of a generation. -/
structure TraceEntry where
  generation : Nat
  proposed : String
  selected : String
  fitness : Option ℚ
  promoted : Bool
  reasons : List String
  incumbent : String
  incumbentFitness : Option ℚ

/-- The variables of the loop, with what the scorer keeps. -/
structure Search (σ μ : Type) where
  state : σ
  cache : μ
  incumbent : Evaluation
  champion : Evaluation
  trace : List TraceEntry

/-- A scorer may keep what it has computed. -/
abbrev Scorer (μ : Type) := μ → Genome → Except EvaluateError (Evaluation × μ)

variable (corpus : List Evidence) (scale : CostScale)

/-- `scoreOf`. -/
def scoreOf : Scorer (SortedMap String Evaluation) := fun cache genome =>
  match cache.find (genomeKey showNumber genome) with
  | some found => .ok (found, cache)
  | none =>
      (evaluate showNumber corpus scale genome).map fun evaluation =>
        (evaluation, cache.insert (genomeKey showNumber genome) evaluation)

variable {μ : Type} (score : Scorer μ)

/-- A generation with its proposal scored, before a restart. -/
def climb (search : Search σ μ) (generation : Nat) (proposal : σ × Genome)
    (scored : Evaluation × μ) : Search σ μ :=
  let reasons := promotionRule showNumber corpus scored.1 (some search.incumbent)
  let incumbent := if reasons = [] then scored.1 else search.incumbent
  let champion :=
    if reasons = [] ∧ promotionRule showNumber corpus scored.1 (some search.champion) = [] then
      scored.1
    else search.champion
  { state := proposal.1
    cache := scored.2
    incumbent
    champion
    trace := search.trace ++ [
      { generation
        proposed := genomeKey showNumber proposal.2
        selected := scored.1.selected
        fitness := scored.1.fitness
        promoted := decide (reasons = [])
        reasons
        incumbent := genomeKey showNumber incumbent.genome
        incumbentFitness := incumbent.fitness }] }

/-- The incumbent of a restart; the champion stays. -/
def restartFrom (search : Search σ μ) (point : σ) (scored : Evaluation × μ) : Search σ μ :=
  { search with state := point, cache := scored.2, incumbent := scored.1 }

/-- A turn of the loop. -/
def generationStep (restartEvery : Nat) (search : Search σ μ) (generation : Nat) :
    Except EvaluateError (Search σ μ) :=
  let proposal := mutate rng search.incumbent.genome search.state
  ((score search.cache proposal.2).map
    (climb showNumber corpus search generation proposal)).bind fun search =>
  if generation % restartEvery = 0 then
    let point := restart rng search.state
    (score search.cache point.2).map (restartFrom search point.1)
  else .ok search

/-- The loop over a scorer. -/
def searchWith (memory : μ) (seed : σ) (generations restartEvery : Nat) :
    Except EvaluateError (Search σ μ) :=
  (score memory rootPolicy).bind fun root =>
  (List.range' 1 generations).foldlM (generationStep showNumber rng corpus score restartEvery)
    ⟨seed, root.2, root.1, root.1, []⟩

/-- `runEvolve`; its evaluations are the size of the cache. -/
def runEvolve (seed : σ) (generations restartEvery : Nat) :
    Except EvaluateError (Search σ (SortedMap String Evaluation)) :=
  searchWith showNumber rng corpus (scoreOf showNumber corpus scale) .empty seed generations
    restartEvery

/-- `exhaustiveChampion`. -/
def exhaustiveChampion : Except EvaluateError (Option Evaluation) :=
  enumerateGenomes.foldlM (fun best genome =>
    (evaluate showNumber corpus scale genome).map fun evaluated =>
      if promotionRule showNumber corpus evaluated best = [] then some evaluated else best) none

end LatentMesh.Harness
