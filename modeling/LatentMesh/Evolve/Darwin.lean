import LatentMesh.Evolve.Mutation
import LatentMesh.Memory.Store

/-!
# The Darwin loop

`evolve` of `darwin.rs`: the topology that evolution starts at, warm started from memory where it
can be, the generations of mutated children with elitist selection, and the audit of the best
topology at the end. The random source and the evaluation of a topology are parameters, and so are
the comparisons of fitness. A run keeps a list of the topologies that it reaches, which only the
statements about a run read.
-/

namespace LatentMesh.Evolve

open LatentMesh.Lib LatentMesh.Core LatentMesh.Memory

/-- What evolution reads of the environment. -/
structure SyntheticEnv where
  mandatoryEdges : List (AgentId × AgentId)
  deriving DecidableEq, Repr

namespace SyntheticEnv

/-- `SyntheticEnv::new`. -/
def new : SyntheticEnv := ⟨[(9, 1)]⟩

/-- `(0..Self::AGENTS).collect()`. -/
def agents (_self : SyntheticEnv) : List AgentId := (List.range 10).map UInt8.ofNat

/-- There is an agent. -/
theorem agents_length_pos (self : SyntheticEnv) : 0 < self.agents.length := by
  rw [agents, List.length_map, List.length_range]
  omega

end SyntheticEnv

/-- The weights of the parts of the fitness. -/
structure FitnessWeights where
  lambdaCost : F64
  muLatency : F64
  rhoRisk : F64
  alpha : F64
  trials : Nat
  resamples : Nat
  deriving DecidableEq, Repr

/-- The values 0.002, 0.01, 0.5, 0.05, 24 and 600. -/
def FitnessWeights.default : FitnessWeights :=
  ⟨⟨0x3f60624dd2f1a9fc⟩, ⟨0x3f847ae147ae147b⟩, ⟨0x3fe0000000000000⟩, ⟨0x3fa999999999999a⟩, 24, 600⟩

/-- The parts of the fitness of a topology. -/
structure FitnessBreakdown where
  quality : F64
  cost : F64
  latency : F64
  risk : F64
  fitness : F64
  taskSuccess : F64
  /-- For a live edge its ends, its value, and whether it is verified. -/
  edgeResults : List (AgentId × AgentId × F64 × Bool)
  verificationEvaluations : Nat

/-- The evaluation of a topology, with the cache of verdicts. -/
structure FitnessOracle (γ : Type) where
  /-- `VerificationCache::new`. -/
  newCache : γ
  evaluate : Topology → FitnessWeights → UInt64 → γ → FitnessBreakdown × γ

/-- `StdRng`. -/
structure RandomSource (ρ : Type) where
  seedFromU64 : UInt64 → ρ
  /-- `gen_range(0..bound)`, which panics for an empty range. -/
  genIndex (bound : Nat) : 0 < bound → ρ → Fin bound × ρ
  /-- `gen_range(0..10u8)`. -/
  genKind : ρ → Fin 10 × ρ
  /-- `choose`. -/
  choose : List Encoding → ρ → Option Encoding × ρ

/-- The parameters of a run. -/
structure DarwinConfig where
  seed : UInt64
  generations : Nat
  population : Nat
  mutationsPerChild : Nat
  weights : FitnessWeights
  deriving DecidableEq, Repr

/-- `DarwinConfig::default`. -/
def DarwinConfig.default : DarwinConfig := ⟨0x44415257, 40, 12, 3, .default⟩

/-! ## The topology that evolution starts at -/

/-- An edge is marked as mandatory, if it is there. -/
def markMandatory (base : Topology) (pair : AgentId × AgentId) : Topology :=
  match base.edges.find ⟨pair.1, pair.2⟩ with
  | some edge =>
      { base with edges := base.edges.insert ⟨pair.1, pair.2⟩ { edge with mandatory := true } }
  | none => base

/-- The first topology: all edges, those of the environment mandatory. -/
def baseTopology (env : SyntheticEnv) : Topology :=
  env.mandatoryEdges.foldl markMandatory (.fullyConnected env.agents .latentPrefix)

/-- `strip_prefix("agent-")`. -/
def stripAgent (name : String) : Option String :=
  if "agent-".toList.isPrefixOf name.toList then some (String.ofList (name.toList.drop 6))
  else none

/-- `parse::<u8>`: digits, with or without a plus before them. -/
def parseAgentId (text : String) : Option AgentId :=
  let digits := match text.toList with
    | '+' :: rest => rest
    | chars => chars
  if digits.isEmpty ∨ ¬ digits.all Char.isDigit then none
  else
    let value := digits.foldl (fun value digit => 10 * value + (digit.toNat - '0'.toNat)) 0
    if value < 256 then some (UInt8.ofNat value) else none

/-- The agents of a remembered topology. -/
def rememberedAgents (record : TopologyRecord) : List AgentId :=
  (record.agentSequence.filterMap stripAgent).filterMap parseAgentId

/-- The start with the remembered agents and those of mandatory edges, where there are any. -/
def warmStart (env : SyntheticEnv) (memory : Option (InMemoryStore F32 F64 × String))
    (base : Topology) : Topology × Bool :=
  match memory with
  | none => (base, false)
  | some (store, family) =>
      match store.recallTopology family with
      | none => (base, false)
      | some record =>
          let keep := rememberedAgents record
          if keep.isEmpty then (base, false)
          else
            let mandatoryAgents := env.mandatoryEdges.flatMap fun pair => [pair.1, pair.2]
            ({ base with
              activeAgents := base.activeAgents.filter fun a =>
                keep.contains a || mandatoryAgents.contains a }, true)

/-! ## Mutated children -/

section Loop

variable {ρ γ : Type} (rng : RandomSource ρ) (oracle : FitnessOracle γ) (ops : DoubleOps)
  (env : SyntheticEnv) (config : DarwinConfig)

/-- A random agent. -/
def pickAgent (agents : List AgentId) (hagents : 0 < agents.length) (state : ρ) : AgentId × ρ :=
  let (index, state) := rng.genIndex agents.length hagents state
  (agents.get index, state)

/-- A random edge. -/
def pickEdge (existing : List EdgeKey) (hexisting : 0 < existing.length) (state : ρ) :
    EdgeKey × ρ :=
  let (index, state) := rng.genIndex existing.length hexisting state
  (existing.get index, state)

/-- A random edge to add. -/
def randomAddEdge (agents : List AgentId) (hagents : 0 < agents.length) (state : ρ) :
    Mutation × ρ :=
  let (source, state) := pickAgent rng agents hagents state
  let (target, state) := pickAgent rng agents hagents state
  (.addEdge source target, state)

/-- `random_mutation`. -/
def randomMutation (agents : List AgentId) (hagents : 0 < agents.length) (topology : Topology)
    (state : ρ) : Mutation × ρ :=
  let existing := topology.edges.entries.map Prod.fst
  if hexisting : 0 < existing.length then
    let (kind, state) := rng.genKind state
    match kind.val with
    | 0 => randomAddEdge rng agents hagents state
    | 1 | 2 | 3 =>
        let (key, state) := pickEdge rng existing hexisting state
        (.removeEdge key.source key.target, state)
    | 4 =>
        let (key, state) := pickEdge rng existing hexisting state
        (.raiseAuthority key.source key.target, state)
    | 5 =>
        let (key, state) := pickEdge rng existing hexisting state
        (.lowerAuthority key.source key.target, state)
    | 6 | 7 =>
        let (key, state) := pickEdge rng existing hexisting state
        let (encoding, state) := rng.choose [.f32, .f16, .int8] state
        (.changeEncoding key.source key.target (encoding.getD .int8), state)
    | 8 =>
        let (agent, state) := pickAgent rng agents hagents state
        (.deactivateAgent agent, state)
    | _ =>
        let (agent, state) := pickAgent rng agents hagents state
        (.reactivateAgent agent, state)
  else randomAddEdge rng agents hagents state

/-- The variables of the loop, and the topologies that it has reached. -/
structure Progress (ρ γ : Type) where
  rng : ρ
  cache : γ
  bestTopology : Topology
  best : FitnessBreakdown
  mutationsProposed : Nat
  mutationsRejected : Nat
  totalVerifications : Nat
  reached : List Topology

/-- The mutations of one child. -/
def mutateChild : Nat → Topology → Progress ρ γ → Topology × Progress ρ γ
  | 0, child, progress => (child, progress)
  | turns + 1, child, progress =>
      let (mutation, state) :=
        randomMutation rng env.agents env.agents_length_pos child progress.rng
      let (next, result) := child.applyMutation mutation
      let rejected := match result with
        | .ok () => 0
        | .error _ => 1
      mutateChild turns next
        { progress with
          rng := state
          mutationsProposed := progress.mutationsProposed + 1
          mutationsRejected := progress.mutationsRejected + rejected
          reached := progress.reached ++ [next] }

/-- The children of one generation. -/
def makeChildren : Nat → List (Topology × FitnessBreakdown) → Progress ρ γ →
    List (Topology × FitnessBreakdown) × Progress ρ γ
  | 0, children, progress => (children, progress)
  | turns + 1, children, progress =>
      let (child, progress) :=
        mutateChild rng env config.mutationsPerChild progress.bestTopology progress
      let (breakdown, cache) := oracle.evaluate child config.weights config.seed progress.cache
      makeChildren turns (children ++ [(child, breakdown)])
        { progress with
          cache := cache
          totalVerifications := progress.totalVerifications + breakdown.verificationEvaluations }

/-- `max_by`: the last of the greatest. -/
def maxBy {α : Type} (compare : α → α → Ordering) : List α → Option α
  | [] => none
  | first :: rest =>
      some (rest.foldl (fun best item => if compare best item = .gt then best else item) first)

/-- One generation: the best child replaces the incumbent when it wins. -/
def generation (progress : Progress ρ γ) : Progress ρ γ :=
  let (children, progress) := makeChildren rng oracle env config config.population [] progress
  match maxBy (fun a b => (ops.partialCmp a.2.fitness b.2.fitness).getD .eq) children with
  | some (child, breakdown) =>
      if ops.lt progress.best.fitness breakdown.fitness then
        { progress with bestTopology := child, best := breakdown }
      else progress
  | none => progress

/-- The edges that the audit at the end keeps: the mandatory ones, and the verified ones between
active agents. -/
def auditEdges (best : Topology) (edgeResults : List (AgentId × AgentId × F64 × Bool)) :
    SortedMap EdgeKey Edge :=
  let unverified := (edgeResults.filter fun result => !result.2.2.2).map fun result =>
    (⟨result.1, result.2.1⟩ : EdgeKey)
  best.edges.retain fun key edge =>
    edge.mandatory ||
      (!unverified.contains key && best.activeAgents.contains key.source &&
        best.activeAgents.contains key.target)

/-- The audit: the agents that are left without edges go too. -/
def audit (best : Topology) (edgeResults : List (AgentId × AgentId × F64 × Bool)) : Topology :=
  let edges := auditEdges best edgeResults
  let needed := edges.entries.flatMap fun entry => [entry.2.source, entry.2.target]
  { best with edges := edges, activeAgents := best.activeAgents.filter needed.contains }

/-- The result of a run. -/
structure EvolveOutcome where
  initial : FitnessBreakdown
  best : FitnessBreakdown
  bestTopology : Topology
  generationsRun : Nat
  mutationsProposed : Nat
  mutationsRejectedByConstitution : Nat
  totalVerificationEvaluations : Nat
  warmStarted : Bool

/-- The outcome of a run, and the topologies that it reaches. -/
structure Evolution where
  outcome : EvolveOutcome
  reached : List Topology

/-- `evolve`. -/
def evolve (memory : Option (InMemoryStore F32 F64 × String)) : Evolution :=
  let (base, warmStarted) := warmStart env memory (baseTopology env)
  let (initial, cache) := oracle.evaluate base config.weights config.seed oracle.newCache
  let progress := (generation rng oracle ops env config)^[config.generations]
    { rng := rng.seedFromU64 config.seed
      cache := cache
      bestTopology := base
      best := initial
      mutationsProposed := 0
      mutationsRejected := 0
      totalVerifications := initial.verificationEvaluations
      reached := [base] }
  let audited := audit progress.bestTopology progress.best.edgeResults
  let (auditedFit, _) := oracle.evaluate audited config.weights config.seed progress.cache
  let (best, bestTopology) :=
    if ops.le progress.best.fitness auditedFit.fitness then (auditedFit, audited)
    else (progress.best, progress.bestTopology)
  { outcome :=
      { initial := initial
        best := best
        bestTopology := bestTopology
        generationsRun := config.generations
        mutationsProposed := progress.mutationsProposed
        mutationsRejectedByConstitution := progress.mutationsRejected
        totalVerificationEvaluations := progress.totalVerifications
        warmStarted := warmStarted }
    reached := progress.reached ++ [audited] }

end Loop

end LatentMesh.Evolve
