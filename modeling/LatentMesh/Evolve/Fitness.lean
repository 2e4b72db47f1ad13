import LatentMesh.Evolve.Darwin
import LatentMesh.Lib.Memo

/-!
# Fitness

`evaluate` of `fitness.rs`: the objective of a topology, with a cache of the verdicts on its edges.
The arithmetic of floats, the verification of an edge on trials of the environment, and the task
success that the environment sees are parameters. A cache that holds true verdicts changes nothing
but the number of verifications (`evaluate_cached`).
-/

namespace LatentMesh.Evolve

open LatentMesh.Lib LatentMesh.Core

/-- The operations on `f64` that `evaluate` uses. -/
structure FitnessOps extends DoubleOps where
  sub : F64 → F64 → F64
  mul : F64 → F64 → F64

/-- What `evaluate` asks of the environment. -/
structure Verifier where
  /-- `verify_edge` on the trials of `edge_trial`, under a seed: the value of an admitted edge. -/
  verify : FitnessWeights → UInt64 → EdgeKey → Option F64
  taskSuccess : List EdgeKey → F64

/-- The verdicts on edges: a value, and whether the edge is verified. -/
abbrev VerificationCache := SortedMap EdgeKey (F64 × Bool)

/-- The values 0.05, 0.2, 0.45 and 0.75. -/
def authorityRisk : Authority → F64
  | .observeOnly => ⟨0x3fa999999999999a⟩
  | .contextInject => ⟨0x3fc999999999999a⟩
  | .latentPrefix => ⟨0x3fdccccccccccccd⟩
  | .actionInfluencing => ⟨0x3fe8000000000000⟩

/-- The key of an edge. -/
def Edge.key (self : Edge) : EdgeKey := ⟨self.source, self.target⟩

/-- The edges between active agents. -/
def Topology.liveEdges (self : Topology) : List Edge :=
  (self.edges.entries.map Prod.snd).filter fun edge =>
    self.activeAgents.contains edge.source && self.activeAgents.contains edge.target

/-- What the agents and the encodings of the edges cost, in place of a run time. -/
def Topology.computeProxy (ops : FitnessOps) (self : Topology) : F64 :=
  let agentCost := ops.mul (ops.ofNat self.activeAgents.length) (ops.ofNat 100)
  let edgeCost := (self.edges.entries.map fun entry =>
    ops.div (ops.ofNat (512 * entry.2.encoding.bytesPerElement)) (ops.ofNat 100)).foldl ops.add
      .zero
  ops.add agentCost edgeCost

section Evaluation

variable (ops : FitnessOps) (verifier : Verifier) (weights : FitnessWeights) (seed : UInt64)

/-- The seed of an edge. -/
def edgeSeed (key : EdgeKey) : UInt64 :=
  seed * (0x100 : UInt64) + ((key.source.toUInt64 <<< (8 : UInt64)) ||| key.target.toUInt64)

/-- The verdict on an edge: a rejected edge has no value. -/
def verdict (key : EdgeKey) : F64 × Bool :=
  match verifier.verify weights (edgeSeed seed key) key with
  | some deltaV => (deltaV, true)
  | none => (.zero, false)

/-- The variables of the loop over the live edges. -/
structure Tally where
  quality : F64
  risk : F64
  edgeResults : List (AgentId × AgentId × F64 × Bool)
  verificationEvaluations : Nat
  cache : VerificationCache

/-- An edge is verified, from the cache if it is there, and counted. -/
def tallyEdge (tally : Tally) (edge : Edge) : Tally :=
  let fresh := (tally.cache.find edge.key).isNone
  let (result, cache) := memo (verdict verifier weights seed) tally.cache edge.key
  { quality := if result.2 then ops.add tally.quality result.1 else tally.quality
    risk := ops.add tally.risk (authorityRisk edge.authority)
    edgeResults := tally.edgeResults ++ [(edge.source, edge.target, result)]
    verificationEvaluations :=
      tally.verificationEvaluations + if fresh then weights.trials * 5 else 0
    cache := cache }

/-- The breakdown of a topology whose live edges are tallied. -/
def breakdownOf (topology : Topology) (tally : Tally) : FitnessBreakdown :=
  let cost := topology.computeProxy ops
  let latency :=
    if topology.activeAgents.isEmpty then .zero
    else ops.div (ops.ofNat topology.liveEdges.length) (ops.ofNat topology.activeAgents.length)
  { quality := tally.quality
    cost := cost
    latency := latency
    risk := tally.risk
    fitness :=
      ops.sub (ops.sub (ops.sub tally.quality (ops.mul weights.lambdaCost cost))
        (ops.mul weights.muLatency latency)) (ops.mul weights.rhoRisk tally.risk)
    taskSuccess := verifier.taskSuccess (topology.liveEdges.map Edge.key)
    edgeResults := tally.edgeResults
    verificationEvaluations := tally.verificationEvaluations }

/-- `evaluate`, with the cache it leaves. -/
def evaluate (topology : Topology) (cache : VerificationCache) :
    FitnessBreakdown × VerificationCache :=
  let tally := topology.liveEdges.foldl (tallyEdge ops verifier weights seed)
    ⟨.zero, .zero, [], 0, cache⟩
  (breakdownOf ops verifier weights topology tally, tally.cache)

end Evaluation

/-- The evaluation of `evolve`, which keeps its verdicts. -/
def cachingOracle (ops : FitnessOps) (verifier : Verifier) : FitnessOracle VerificationCache where
  newCache := .empty
  evaluate topology weights seed cache := evaluate ops verifier weights seed topology cache

/-! ## The cache -/

section Cache

variable {ops : FitnessOps} {verifier : Verifier} {weights : FitnessWeights} {seed : UInt64}

/-- A tally without its cache and its costs. -/
def Tally.results (tally : Tally) : F64 × F64 × List (AgentId × AgentId × F64 × Bool) :=
  (tally.quality, tally.risk, tally.edgeResults)

/-- What a cache of true verdicts keeps in the loop: the cost is that of the new entries. -/
structure Tally.Sound (verifier : Verifier) (weights : FitnessWeights) (seed : UInt64)
    (start : Nat) (tally : Tally) : Prop where
  memoizes : Memoizes (verdict verifier weights seed) tally.cache
  cost : tally.verificationEvaluations + weights.trials * 5 * start =
    weights.trials * 5 * tally.cache.size

/-- Counting an edge keeps the tally sound. -/
theorem Tally.Sound.tally_edge {start : Nat} {tally : Tally}
    (h : tally.Sound verifier weights seed start) (edge : Edge) :
    (tallyEdge ops verifier weights seed tally edge).Sound verifier weights seed start := by
  refine ⟨h.memoizes.memo edge.key, ?_⟩
  have hcost := h.cost
  show tally.verificationEvaluations + _ + _ = _ * (memo _ tally.cache edge.key).2.size
  rw [memo_size]
  split
  · rw [Nat.mul_add, ← hcost]
    omega
  · omega

/-- What the loop computes does not depend on the cache. -/
theorem tally_edge_results {start start' : Nat} {tally other : Tally}
    (h : tally.Sound verifier weights seed start) (h' : other.Sound verifier weights seed start')
    (heq : tally.results = other.results) (edge : Edge) :
    (tallyEdge ops verifier weights seed tally edge).results =
      (tallyEdge ops verifier weights seed other edge).results := by
  obtain ⟨hquality, hrest⟩ := Prod.mk.inj heq
  obtain ⟨hrisk, hresults⟩ := Prod.mk.inj hrest
  unfold tallyEdge Tally.results
  dsimp only
  rw [memo_eq h.memoizes, memo_eq h'.memoizes, hquality, hrisk, hresults]

variable (ops) in
/-- Two sound tallies with the same counts keep the same counts. -/
theorem tally_edges {start start' : Nat} {tally other : Tally}
    (h : tally.Sound verifier weights seed start) (h' : other.Sound verifier weights seed start')
    (heq : tally.results = other.results) (edges : List Edge) :
    (edges.foldl (tallyEdge ops verifier weights seed) tally).Sound verifier weights seed start ∧
      (edges.foldl (tallyEdge ops verifier weights seed) tally).results =
        (edges.foldl (tallyEdge ops verifier weights seed) other).results := by
  induction edges generalizing tally other with
  | nil => exact ⟨h, heq⟩
  | cons edge edges ih =>
      exact ih (h.tally_edge edge) (h'.tally_edge edge) (tally_edge_results h h' heq edge)

/-- The edges that are cached after a tally. -/
theorem tally_keys (tally : Tally) (edges : List Edge) (key : EdgeKey) :
    ((edges.foldl (tallyEdge ops verifier weights seed) tally).cache.find key).isSome = true ↔
      (∃ edge ∈ edges, edge.key = key) ∨ (tally.cache.find key).isSome = true := by
  induction edges generalizing tally with
  | nil => simp
  | cons edge edges ih =>
      rw [List.foldl_cons, ih]
      show _ ∨ ((memo _ tally.cache edge.key).2.find key).isSome = true ↔ _
      rw [memo_keys, List.exists_mem_cons_iff, or_left_comm, or_assoc]

/-- A breakdown without its cost. -/
def FitnessBreakdown.withoutCost (self : FitnessBreakdown) : FitnessBreakdown :=
  { self with verificationEvaluations := 0 }

variable (ops) in
/-- A cache of true verdicts changes nothing but the cost, which is that of the edges it lacks, and
it stays a cache of true verdicts, now with those of the live edges. -/
theorem evaluate_cached (topology : Topology) {cache : VerificationCache}
    (h : Memoizes (verdict verifier weights seed) cache) :
    let outcome := evaluate ops verifier weights seed topology cache
    outcome.1.withoutCost =
        (evaluate ops verifier weights seed topology .empty).1.withoutCost ∧
      Memoizes (verdict verifier weights seed) outcome.2 ∧
      outcome.1.verificationEvaluations + weights.trials * 5 * cache.size =
        weights.trials * 5 * outcome.2.size ∧
      ∀ key, (outcome.2.find key).isSome = true ↔
        (∃ edge ∈ topology.liveEdges, edge.key = key) ∨ (cache.find key).isSome = true := by
  have hstart : Tally.Sound verifier weights seed cache.size ⟨.zero, .zero, [], 0, cache⟩ :=
    ⟨h, Nat.zero_add _⟩
  have hempty : Tally.Sound verifier weights seed 0 ⟨.zero, .zero, [], 0, .empty⟩ :=
    ⟨memoizes_empty, rfl⟩
  obtain ⟨hsound, hresults⟩ := tally_edges ops hstart hempty rfl topology.liveEdges
  refine ⟨?_, hsound.memoizes, hsound.cost, tally_keys _ _⟩
  obtain ⟨hquality, hrest⟩ := Prod.mk.inj hresults
  obtain ⟨hrisk, hedges⟩ := Prod.mk.inj hrest
  unfold FitnessBreakdown.withoutCost evaluate breakdownOf
  dsimp only
  rw [hquality, hrisk, hedges]

/-- The edge of a result. -/
def resultKey (result : AgentId × AgentId × F64 × Bool) : EdgeKey := ⟨result.1, result.2.1⟩

/-- The result of an edge. -/
def edgeResult (verifier : Verifier) (weights : FitnessWeights) (seed : UInt64) (edge : Edge) :
    AgentId × AgentId × F64 × Bool :=
  (edge.source, edge.target, verdict verifier weights seed edge.key)

/-- A sound tally lists what every edge gives without a cache. -/
theorem tally_edge_results_eq {start : Nat} {tally : Tally}
    (h : tally.Sound verifier weights seed start) (edges : List Edge) :
    (edges.foldl (tallyEdge ops verifier weights seed) tally).edgeResults =
      tally.edgeResults ++ edges.map (edgeResult verifier weights seed) := by
  induction edges generalizing tally with
  | nil => exact (List.append_nil _).symm
  | cons edge edges ih =>
      rw [List.foldl_cons, ih (h.tally_edge edge)]
      show (tally.edgeResults ++ [(_, _, (memo _ tally.cache edge.key).1)]) ++ _ = _
      rw [memo_eq h.memoizes, List.append_assoc]
      rfl

/-- The results are those of the live edges. -/
theorem evaluate_edge_results {topology : Topology} {cache : VerificationCache}
    (h : Memoizes (verdict verifier weights seed) cache) :
    (evaluate ops verifier weights seed topology cache).1.edgeResults =
      topology.liveEdges.map (edgeResult verifier weights seed) := by
  have hstart : Tally.Sound verifier weights seed cache.size ⟨.zero, .zero, [], 0, cache⟩ :=
    ⟨h, Nat.zero_add _⟩
  exact tally_edge_results_eq hstart _

end Cache

end LatentMesh.Evolve
