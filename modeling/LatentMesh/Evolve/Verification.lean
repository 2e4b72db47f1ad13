import LatentMesh.Evolve.Constitution
import LatentMesh.Evolve.Fitness

/-!
# The cost of verification

A run of `evolve` with its cache of verdicts is, but for its costs, the run that verifies every edge
of every candidate again. Its cost is that of verifying some of the ordered pairs of agents once
each, however many generations there are and however large they are (`verification_bounds_search`).
-/

namespace LatentMesh.Evolve

open LatentMesh.Lib LatentMesh.Core LatentMesh.Memory

/-- The evaluation without a cache, whose costs are not counted. -/
def plainOracle (ops : FitnessOps) (verifier : Verifier) : FitnessOracle Unit where
  newCache := ()
  evaluate topology weights seed _ :=
    ((evaluate ops verifier weights seed topology .empty).1.withoutCost, ())

/-! ## Edges between agents -/

/-- Every edge is stored under its own agents, which are two of the environment. -/
def Spans (env : SyntheticEnv) (topology : Topology) : Prop :=
  ∀ key edge, topology.edges.find key = some edge → edge.key = key ∧ Connected env key

/-- A mutation adds no edge to an agent that there is not. -/
def Mutation.Within (agents : List AgentId) : Mutation → Prop
  | .addEdge source target => source ∈ agents ∧ target ∈ agents
  | _ => True

section Spanning

variable {env : SyntheticEnv} {topology : Topology}

/-- An edge between connected agents keeps the edges among them. -/
theorem Spans.insert (h : Spans env topology) {key : EdgeKey} {edge : Edge}
    (hedge : edge.key = key) (hkey : Connected env key) :
    Spans env { topology with edges := topology.edges.insert key edge } := by
  intro other found hfound
  rcases SortedMap.find_insert_eq_some_iff.mp hfound with ⟨rfl, rfl⟩ | ⟨-, hold⟩
  · exact ⟨hedge, hkey⟩
  · exact h other found hold

/-- Fewer edges are still among connected agents. -/
theorem Spans.retain (h : Spans env topology) (keep : EdgeKey → Edge → Bool) :
    Spans env { topology with edges := topology.edges.retain keep } :=
  fun key edge hedge => h key edge (SortedMap.find_retain_eq_some_iff.mp hedge).1

/-- A mutation of the topology's own edges and agents keeps its edges between agents. -/
theorem Spans.apply_mutation (h : Spans env topology) {mutation : Mutation}
    (hmutation : mutation.Within env.agents) : Spans env (topology.applyMutation mutation).1 := by
  -- an edge with another authority or encoding is between the same agents
  have hchange : ∀ {source target edge} (changed : Edge),
      topology.edges.find ⟨source, target⟩ = some edge → changed.key = edge.key →
        Spans env { topology with edges := topology.edges.insert ⟨source, target⟩ changed } := by
    intro source target edge changed hedge hsame
    obtain ⟨hkey, hconnected⟩ := h _ _ hedge
    exact h.insert (hsame.trans hkey) hconnected
  cases mutation with
  | addEdge source target =>
      unfold Topology.applyMutation
      dsimp only
      split
      · exact h
      · rename_i hne
        split
        · exact h
        · exact h.insert rfl ⟨hmutation, hne⟩
  | removeEdge source target =>
      unfold Topology.applyMutation
      dsimp only
      split
      · split
        · exact h
        · rw [SortedMap.erase_eq_retain]
          exact h.retain _
      · exact h
  | raiseAuthority source target =>
      unfold Topology.applyMutation
      dsimp only
      split
      · exact h
      · rename_i edge hedge
        split
        · split
          · exact hchange _ hedge rfl
          · exact h
        · exact h
  | lowerAuthority source target =>
      unfold Topology.applyMutation
      dsimp only
      split
      · exact h
      · rename_i edge hedge
        split
        · exact hchange _ hedge rfl
        · exact h
  | changeEncoding source target encoding =>
      unfold Topology.applyMutation
      dsimp only
      split
      · exact h
      · rename_i edge hedge
        exact hchange _ hedge rfl
  | deactivateAgent agent =>
      unfold Topology.applyMutation
      dsimp only
      split
      · exact h
      · exact h
  | reactivateAgent agent =>
      unfold Topology.applyMutation
      dsimp only
      split
      · exact h
      · exact h

/-- The first topology has edges between connected agents only. -/
theorem base_spans (env : SyntheticEnv) : Spans env (baseTopology env) := by
  intro key edge hedge
  obtain ⟨hconnected, rfl⟩ := base_edge hedge
  exact ⟨rfl, hconnected⟩

/-- A warm start keeps the edges. -/
theorem warm_start_edges (env : SyntheticEnv) (memory : Option (InMemoryStore F32 F64 × String))
    (base : Topology) : (warmStart env memory base).1.edges = base.edges := by
  unfold warmStart
  split
  · rfl
  · split
    · rfl
    · dsimp only
      split <;> rfl

/-- A random mutation adds edges between the agents only. -/
theorem random_mutation_within {ρ : Type} (rng : RandomSource ρ) (agents : List AgentId)
    (hagents : 0 < agents.length) (topology : Topology) (state : ρ) :
    (randomMutation rng agents hagents topology state).1.Within agents := by
  have hadd : ∀ state, (randomAddEdge rng agents hagents state).1.Within agents := fun state =>
    ⟨List.get_mem agents _, List.get_mem agents _⟩
  unfold randomMutation
  dsimp only
  split
  · split <;> first | exact hadd _ | trivial
  · exact hadd _

end Spanning

/-! ## Evaluated topologies -/

/-- A topology that was evaluated: the cache has its live edges, and the results are theirs. -/
structure Evaluated (env : SyntheticEnv) (verifier : Verifier) (config : DarwinConfig)
    (cache : VerificationCache) (candidate : Topology × FitnessBreakdown) : Prop where
  spans : Spans env candidate.1
  results : candidate.2.edgeResults =
    candidate.1.liveEdges.map (edgeResult verifier config.weights config.seed)
  cached : ∀ edge ∈ candidate.1.liveEdges, (cache.find edge.key).isSome = true

/-- A candidate that was evaluated stays so with a larger cache. -/
theorem Evaluated.mono {env : SyntheticEnv} {verifier : Verifier} {config : DarwinConfig}
    {cache cache' : VerificationCache} {candidate : Topology × FitnessBreakdown}
    (h : Evaluated env verifier config cache candidate)
    (hcache : ∀ key, (cache.find key).isSome = true → (cache'.find key).isSome = true) :
    Evaluated env verifier config cache' candidate :=
  ⟨h.spans, h.results, fun edge hedge => hcache _ (h.cached edge hedge)⟩

/-- The live edges are those between active agents. -/
theorem mem_live_edges {topology : Topology} {edge : Edge} :
    edge ∈ topology.liveEdges ↔
      (∃ key, topology.edges.find key = some edge) ∧
        edge.source ∈ topology.activeAgents ∧ edge.target ∈ topology.activeAgents := by
  rw [Topology.liveEdges, List.mem_filter, Bool.and_eq_true, List.contains_iff_mem,
    List.contains_iff_mem, List.mem_map]
  refine and_congr_left fun _ => ?_
  constructor
  · rintro ⟨⟨key, found⟩, hentry, rfl⟩
    exact ⟨key, (SortedMap.mem_entries_iff _ _ _).mp hentry⟩
  · rintro ⟨key, hkey⟩
    exact ⟨(key, edge), (SortedMap.mem_entries_iff _ _ _).mpr hkey, rfl⟩

/-- The audit leaves no edge that was not live before. -/
theorem audit_live_edges {best : Topology} {edgeResults : List (AgentId × AgentId × F64 × Bool)}
    {edge : Edge} (h : edge ∈ (audit best edgeResults).liveEdges) : edge ∈ best.liveEdges := by
  obtain ⟨⟨key, hkey⟩, hsource, htarget⟩ := mem_live_edges.mp h
  exact mem_live_edges.mpr ⟨⟨key, (SortedMap.find_retain_eq_some_iff.mp hkey).1⟩,
    List.mem_of_mem_filter hsource, List.mem_of_mem_filter htarget⟩

/-- The audit adds no edge. -/
theorem audit_spans {env : SyntheticEnv} {best : Topology} (h : Spans env best)
    (edgeResults : List (AgentId × AgentId × F64 × Bool)) : Spans env (audit best edgeResults) :=
  fun key edge hedge => h key edge (SortedMap.find_retain_eq_some_iff.mp hedge).1

/-- The ordered pairs of different agents. -/
def agentPairs : List EdgeKey :=
  ((SyntheticEnv.new.agents.product SyntheticEnv.new.agents).map fun pair =>
    (⟨pair.1, pair.2⟩ : EdgeKey)).filter fun key => key.source ≠ key.target

/-- There are 90 pairs of agents. -/
theorem agent_pairs_length : agentPairs.length = 90 := by decide

/-- No more than 90 edges connect agents. -/
theorem length_le_of_connected {env : SyntheticEnv} {keys : List EdgeKey} (hnodup : keys.Nodup)
    (h : ∀ key ∈ keys, Connected env key) : keys.length ≤ 90 := by
  have hsubset : keys ⊆ agentPairs := by
    intro key hkey
    obtain ⟨⟨hsource, htarget⟩, hne⟩ := h key hkey
    refine List.mem_filter.mpr ⟨List.mem_map.mpr ⟨(key.source, key.target), ?_, rfl⟩,
      decide_eq_true hne⟩
    exact List.pair_mem_product.mpr ⟨hsource, htarget⟩
  exact (List.subperm_of_subset hnodup hsubset).length_le.trans agent_pairs_length.le

/-! ## The run without a cache -/

section Runs

variable {ρ : Type}

/-- A run without its cache and its costs. -/
def Progress.withoutCache (progress : Progress ρ VerificationCache) : Progress ρ Unit where
  rng := progress.rng
  cache := ()
  bestTopology := progress.bestTopology
  best := progress.best.withoutCost
  mutationsProposed := progress.mutationsProposed
  mutationsRejected := progress.mutationsRejected
  totalVerifications := 0
  reached := progress.reached

/-- A result without what depends on the cost of verification. -/
def EvolveOutcome.withoutCost (self : EvolveOutcome) : EvolveOutcome :=
  { self with
    initial := self.initial.withoutCost
    best := self.best.withoutCost
    totalVerificationEvaluations := 0 }

/-- A candidate without what depends on the cost of verification. -/
def candidateWithoutCost (candidate : Topology × FitnessBreakdown) :
    Topology × FitnessBreakdown :=
  (candidate.1, candidate.2.withoutCost)

variable (rng : RandomSource ρ) (ops : FitnessOps) (verifier : Verifier) (env : SyntheticEnv)
  (config : DarwinConfig)

/-- A cache of true verdicts on edges between agents. -/
structure Truthful (cache : VerificationCache) : Prop where
  memoizes : Memoizes (verdict verifier config.weights config.seed) cache
  connected : ∀ key, (cache.find key).isSome = true → Connected env key

/-- What holds between the generations of a run with its cache. -/
structure Accounted (progress : Progress ρ VerificationCache) : Prop where
  truthful : Truthful verifier env config progress.cache
  cost : progress.totalVerifications = config.weights.trials * 5 * progress.cache.size
  best : Evaluated env verifier config progress.cache (progress.bestTopology, progress.best)

variable {verifier env config} {progress : Progress ρ VerificationCache}

/-- The mutations of a child change neither the cache nor the best topology. -/
theorem mutate_child_frame (env : SyntheticEnv) (progress : Progress ρ VerificationCache)
    (turns : Nat) (child : Topology) :
    let outcome := mutateChild rng env turns child progress
    outcome.2.cache = progress.cache ∧
      outcome.2.totalVerifications = progress.totalVerifications ∧
      outcome.2.bestTopology = progress.bestTopology ∧ outcome.2.best = progress.best ∧
      (Spans env child → Spans env outcome.1) ∧
      mutateChild rng env turns child progress.withoutCache =
        (outcome.1, outcome.2.withoutCache) := by
  induction turns generalizing child progress with
  | zero => exact ⟨rfl, rfl, rfl, rfl, id, rfl⟩
  | succ turns ih =>
      rw [mutateChild, mutateChild]
      dsimp only
      rw [show progress.withoutCache.rng = progress.rng from rfl]
      have hnext (rejected : Nat) := ih
        { progress with
          rng := (randomMutation rng env.agents env.agents_length_pos child progress.rng).2
          mutationsProposed := progress.mutationsProposed + 1
          mutationsRejected := progress.mutationsRejected + rejected
          reached := progress.reached ++ [(child.applyMutation
            (randomMutation rng env.agents env.agents_length_pos child progress.rng).1).1] }
        (child.applyMutation
          (randomMutation rng env.agents env.agents_length_pos child progress.rng).1).1
      have hmutation (hchild : Spans env child) :=
        hchild.apply_mutation (random_mutation_within rng env.agents env.agents_length_pos child
          progress.rng)
      cases (child.applyMutation
          (randomMutation rng env.agents env.agents_length_pos child progress.rng).1).2 with
      | ok _ =>
          obtain ⟨hcache, htotal, htopology, hbest, hspans, hplain⟩ := hnext 0
          exact ⟨hcache, htotal, htopology, hbest, fun hchild => hspans (hmutation hchild), hplain⟩
      | error _ =>
          obtain ⟨hcache, htotal, htopology, hbest, hspans, hplain⟩ := hnext 1
          exact ⟨hcache, htotal, htopology, hbest, fun hchild => hspans (hmutation hchild), hplain⟩

/-- Evaluating a topology between agents keeps a cache truthful, and gives what an evaluation
without it gives. -/
theorem Truthful.evaluate {cache : VerificationCache} (h : Truthful verifier env config cache)
    {child : Topology} (hchild : Spans env child) :
    let outcome := Evolve.evaluate ops verifier config.weights config.seed child cache
    outcome.1.withoutCost =
        (Evolve.evaluate ops verifier config.weights config.seed child .empty).1.withoutCost ∧
      Evaluated env verifier config outcome.2 (child, outcome.1) ∧
      (∀ key, (cache.find key).isSome = true → (outcome.2.find key).isSome = true) ∧
      Truthful verifier env config outcome.2 ∧
      config.weights.trials * 5 * cache.size + outcome.1.verificationEvaluations =
        config.weights.trials * 5 * outcome.2.size := by
  obtain ⟨hresult, hmemoizes, hcost, hkeys⟩ :=
    evaluate_cached ops child h.memoizes
  refine ⟨hresult, ⟨hchild, evaluate_edge_results h.memoizes, fun edge hedge =>
    (hkeys _).mpr (Or.inl ⟨edge, hedge, rfl⟩)⟩, fun key hkey => (hkeys key).mpr (Or.inr hkey),
    ⟨hmemoizes, fun key hkey => ?_⟩, (Nat.add_comm _ _).trans hcost⟩
  rcases (hkeys key).mp hkey with ⟨edge, hedge, rfl⟩ | hold
  · obtain ⟨⟨stored, hstored⟩, -⟩ := mem_live_edges.mp hedge
    obtain ⟨rfl, hconnected⟩ := hchild stored edge hstored
    exact hconnected
  · exact h.connected key hold

/-- Making children keeps the account. -/
theorem Accounted.make_children (h : Accounted verifier env config progress) (turns : Nat)
    {children : List (Topology × FitnessBreakdown)}
    (hchildren : ∀ child ∈ children, Evaluated env verifier config progress.cache child) :
    let outcome := makeChildren rng (cachingOracle ops verifier) env config turns children progress
    Accounted verifier env config outcome.2 ∧
      (∀ child ∈ outcome.1, Evaluated env verifier config outcome.2.cache child) ∧
      makeChildren rng (plainOracle ops verifier) env config turns
          (children.map candidateWithoutCost) progress.withoutCache =
        (outcome.1.map candidateWithoutCost, outcome.2.withoutCache) := by
  induction turns generalizing children progress with
  | zero => exact ⟨h, hchildren, rfl⟩
  | succ turns ih =>
      obtain ⟨hcache, htotal, htopology, hbest, hspans, hplain⟩ :=
        mutate_child_frame rng env progress config.mutationsPerChild progress.bestTopology
      rw [makeChildren, makeChildren]
      dsimp only
      have htopology' : progress.withoutCache.bestTopology = progress.bestTopology := rfl
      rw [htopology', hplain]
      generalize hmutated : mutateChild rng env config.mutationsPerChild progress.bestTopology
        progress = mutated at hcache htotal htopology hbest hspans ⊢
      have hnext : Accounted verifier env config mutated.2 :=
        ⟨hcache ▸ h.truthful, htotal.trans (hcache ▸ h.cost),
          by rw [hcache, htopology, hbest]; exact h.best⟩
      obtain ⟨hresult, hevaluated, hmono, htruthful, hcost⟩ :=
        hnext.truthful.evaluate ops (hspans h.best.spans)
      have haccounted : Accounted verifier env config { mutated.2 with
          cache := (Evolve.evaluate ops verifier config.weights config.seed mutated.1
            mutated.2.cache).2
          totalVerifications := mutated.2.totalVerifications +
            (Evolve.evaluate ops verifier config.weights config.seed mutated.1
              mutated.2.cache).1.verificationEvaluations } :=
        ⟨htruthful, (congrArg (· + _) hnext.cost).trans hcost, hnext.best.mono hmono⟩
      obtain ⟨hlast, hall, hrun⟩ := ih haccounted
        (List.forall_mem_append.mpr ⟨fun child hchild =>
          (hchildren child hchild).mono fun key hkey => hmono key (hcache ▸ hkey),
          List.forall_mem_singleton.mpr hevaluated⟩)
      refine ⟨hlast, hall, Eq.trans ?_ hrun⟩
      have hcandidate : candidateWithoutCost (mutated.1, (Evolve.evaluate ops verifier
            config.weights config.seed mutated.1 mutated.2.cache).1) =
          (mutated.1, (Evolve.evaluate ops verifier config.weights config.seed mutated.1
            .empty).1.withoutCost) := Prod.ext rfl hresult
      rw [List.map_append, List.map_singleton, hcandidate]
      rfl

/-- The greatest of some items is found among their images, where the images compare alike. -/
theorem max_by_map {α β : Type} (compare : α → α → Ordering) (compare' : β → β → Ordering)
    (image : α → β) (h : ∀ first second, compare' (image first) (image second) =
      compare first second) (items : List α) :
    maxBy compare' (items.map image) = (maxBy compare items).map image := by
  cases items with
  | nil => rfl
  | cons first rest =>
      refine congrArg some ?_
      induction rest generalizing first with
      | nil => rfl
      | cons second rest ih =>
          rw [List.map_cons, List.foldl_cons, List.foldl_cons, h, ← ih]
          split <;> rfl

/-- A generation with the cache is accounted for, and is the generation without it. -/
theorem Accounted.generation (h : Accounted verifier env config progress) :
    Accounted verifier env config
        (Evolve.generation rng (cachingOracle ops verifier) ops.toDoubleOps env config progress) ∧
      Evolve.generation rng (plainOracle ops verifier) ops.toDoubleOps env config
          progress.withoutCache =
        (Evolve.generation rng (cachingOracle ops verifier) ops.toDoubleOps env config
          progress).withoutCache := by
  obtain ⟨haccounted, hevaluated, hplain⟩ :=
    h.make_children rng ops config.population (List.forall_mem_nil _)
  have hbest := max_by_map (fun a b => (ops.partialCmp a.2.fitness b.2.fitness).getD .eq)
    (fun a b => (ops.partialCmp a.2.fitness b.2.fitness).getD .eq) candidateWithoutCost
    (fun _ _ => rfl)
    (makeChildren rng (cachingOracle ops verifier) env config config.population [] progress).1
  rw [List.map_nil] at hplain
  unfold Evolve.generation
  dsimp only
  rw [hplain, hbest]
  cases hmax : maxBy (fun a b : Topology × FitnessBreakdown =>
      (ops.partialCmp a.2.fitness b.2.fitness).getD .eq)
    (makeChildren rng (cachingOracle ops verifier) env config config.population [] progress).1 with
  | none => exact ⟨haccounted, rfl⟩
  | some child =>
      have hchild := hevaluated child (max_by_mem hmax)
      dsimp only [Option.map_some]
      by_cases hwins : ops.lt (makeChildren rng (cachingOracle ops verifier) env config
          config.population [] progress).2.best.fitness child.2.fitness = true
      · rw [if_pos hwins]
        refine ⟨⟨haccounted.truthful, haccounted.cost, hchild⟩, ?_⟩
        exact if_pos hwins
      · rw [if_neg hwins]
        exact ⟨haccounted, if_neg hwins⟩

/-- Generations keep the account. -/
theorem Accounted.generations (h : Accounted verifier env config progress) (turns : Nat) :
    Accounted verifier env config ((Evolve.generation rng (cachingOracle ops verifier)
        ops.toDoubleOps env config)^[turns] progress) ∧
      (Evolve.generation rng (plainOracle ops verifier) ops.toDoubleOps env config)^[turns]
          progress.withoutCache =
        ((Evolve.generation rng (cachingOracle ops verifier) ops.toDoubleOps env config)^[turns]
          progress).withoutCache := by
  induction turns generalizing progress with
  | zero => exact ⟨h, rfl⟩
  | succ turns ih =>
      obtain ⟨hnext, hplain⟩ := h.generation rng ops
      rw [Function.iterate_succ_apply, Function.iterate_succ_apply, hplain]
      exact ih hnext

/-- The variables of a run before its first generation. -/
def startProgress {γ : Type} (oracle : FitnessOracle γ) (env : SyntheticEnv) (config : DarwinConfig)
    (memory : Option (InMemoryStore F32 F64 × String)) : Progress ρ γ :=
  let base := (warmStart env memory (baseTopology env)).1
  let initial := oracle.evaluate base config.weights config.seed oracle.newCache
  { rng := rng.seedFromU64 config.seed
    cache := initial.2
    bestTopology := base
    best := initial.1
    mutationsProposed := 0
    mutationsRejected := 0
    totalVerifications := initial.1.verificationEvaluations
    reached := [base] }

/-- The account holds at the start. -/
theorem start_accounted (memory : Option (InMemoryStore F32 F64 × String)) :
    Accounted verifier env config
      (startProgress rng (cachingOracle ops verifier) env config memory) := by
  have hbase : Spans env (warmStart env memory (baseTopology env)).1 := by
    intro key edge hedge
    rw [warm_start_edges] at hedge
    exact base_spans env key edge hedge
  have hempty : Truthful verifier env config .empty :=
    ⟨memoizes_empty, fun key hkey => (by cases hkey)⟩
  obtain ⟨-, hevaluated, -, htruthful, hcost⟩ := hempty.evaluate ops hbase
  exact ⟨htruthful, (Nat.zero_add _).symm.trans hcost, hevaluated⟩

end Runs

/-- The keys of a truthful cache. -/
def cachedKeys (cache : VerificationCache) : List EdgeKey := cache.entries.map Prod.fst

/-- No key is cached twice. -/
theorem cached_keys_nodup (cache : VerificationCache) : (cachedKeys cache).Nodup :=
  List.pairwise_map.mpr (cache.sorted.imp fun hlt => ne_of_lt hlt)

/-- The cached keys. -/
theorem mem_cached_keys {cache : VerificationCache} {key : EdgeKey} :
    key ∈ cachedKeys cache ↔ (cache.find key).isSome = true := by
  rw [cachedKeys, List.mem_map, Option.isSome_iff_exists]
  constructor
  · rintro ⟨⟨_, value⟩, hentry, rfl⟩
    exact ⟨value, (SortedMap.mem_entries_iff _ _ _).mp hentry⟩
  · rintro ⟨value, hvalue⟩
    exact ⟨(key, value), (SortedMap.mem_entries_iff _ _ _).mpr hvalue, rfl⟩

/-- The results of a topology with cached edges are on cached edges. -/
theorem result_keys_cached {verifier : Verifier} {config : DarwinConfig}
    {cache : VerificationCache} (candidate : Topology × FitnessBreakdown)
    (hresults : candidate.2.edgeResults =
      candidate.1.liveEdges.map (edgeResult verifier config.weights config.seed))
    (hcached : ∀ edge ∈ candidate.1.liveEdges, (cache.find edge.key).isSome = true) :
    ∀ result ∈ candidate.2.edgeResults, resultKey result ∈ cachedKeys cache := by
  intro result hresult
  rw [hresults] at hresult
  obtain ⟨edge, hedge, rfl⟩ := List.mem_map.mp hresult
  exact mem_cached_keys.mpr (hcached edge hedge)

/-- A run with the cache gives what the run gives that verifies every edge of every candidate again.
Its cost is that of some edges between agents, verified once each and the edges of the result among
them, so it is at most that of all 90 edges, however long the run is. -/
theorem verification_bounds_search {ρ : Type} (rng : RandomSource ρ) (ops : FitnessOps)
    (verifier : Verifier) (env : SyntheticEnv) (config : DarwinConfig)
    (memory : Option (InMemoryStore F32 F64 × String)) :
    let run := evolve rng (cachingOracle ops verifier) ops.toDoubleOps env config memory
    let plain := evolve rng (plainOracle ops verifier) ops.toDoubleOps env config memory
    run.outcome.withoutCost = plain.outcome ∧ run.reached = plain.reached ∧
      ∃ verified : List EdgeKey, verified.Nodup ∧ (∀ key ∈ verified, Connected env key) ∧
        (∀ result ∈ run.outcome.best.edgeResults, resultKey result ∈ verified) ∧
        run.outcome.totalVerificationEvaluations =
          config.weights.trials * 5 * verified.length ∧
        run.outcome.totalVerificationEvaluations ≤ config.weights.trials * 5 * 90 := by
  have hstart : Accounted verifier env config _ := start_accounted rng ops memory
  obtain ⟨hlast, hplain⟩ := hstart.generations rng ops config.generations
  unfold evolve
  dsimp only
  generalize hplainLast : (generation rng (plainOracle ops verifier) ops.toDoubleOps env config)^[
    config.generations] _ = plainLast
  generalize hrun : (generation rng (cachingOracle ops verifier) ops.toDoubleOps env config)^[
    config.generations] _ = last
  have hends : (generation rng (cachingOracle ops verifier) ops.toDoubleOps env config)^[
      config.generations] (startProgress rng (cachingOracle ops verifier) env config memory) =
    last := hrun
  rw [hends] at hlast hplain
  obtain rfl : plainLast = last.withoutCache := hplainLast.symm.trans hplain
  -- the audit is of edges that are verified already
  obtain ⟨haudit, -⟩ := hlast.truthful.evaluate ops
    (audit_spans hlast.best.spans last.best.edgeResults)
  refine ⟨?_, rfl, cachedKeys last.cache, cached_keys_nodup _,
    fun key hkey => hlast.truthful.connected key (mem_cached_keys.mp hkey), ?_, ?_, ?_⟩
  · generalize hfit : ((cachingOracle ops verifier).evaluate _ _ _ last.cache).1 = fit
    generalize hplainFit : ((plainOracle ops verifier).evaluate (audit
      last.withoutCache.bestTopology last.withoutCache.best.edgeResults) _ _ _).1 = plainFit
    obtain rfl : plainFit = fit.withoutCost := by
      rw [← hplainFit, ← hfit]
      exact haudit.symm
    by_cases hwins : ops.le last.best.fitness fit.fitness = true
    · have hwins' : ops.le last.withoutCache.best.fitness fit.withoutCost.fitness = true := hwins
      rw [if_pos hwins, if_pos hwins']
      rfl
    · have hwins' : ¬ ops.le last.withoutCache.best.fitness fit.withoutCost.fitness = true := hwins
      rw [if_neg hwins, if_neg hwins']
      rfl
  · split
    · refine result_keys_cached (audit _ _, _)
        (evaluate_edge_results hlast.truthful.memoizes) fun edge hedge => ?_
      exact hlast.best.cached edge (audit_live_edges hedge)
    · exact result_keys_cached _ hlast.best.results hlast.best.cached
  · exact hlast.cost.trans (congrArg _ (List.length_map _).symm)
  · refine hlast.cost.trans_le (Nat.mul_le_mul_left _ ?_)
    rw [SortedMap.size, ← List.length_map Prod.fst]
    exact length_le_of_connected (cached_keys_nodup _) fun key hkey =>
      hlast.truthful.connected key (mem_cached_keys.mp hkey)

end LatentMesh.Evolve
