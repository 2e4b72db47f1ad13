import LatentMesh.Evolve.Darwin

/-!
# The constitution of a run

The start of a run satisfies the constitution, and its mandatory edges are those of the environment
(`base_find`). Mutations, generations and the audit keep both, so every topology of a run has them
(`constitution_kept`).
-/

namespace LatentMesh.Evolve

open LatentMesh.Lib LatentMesh.Core LatentMesh.Memory

/-! ## The start -/

section Start

variable {env : SyntheticEnv} {key : EdgeKey}

/-- Marking an edge changes its mandatory flag only. -/
theorem mark_mandatory_find (base : Topology) (pair : AgentId × AgentId) :
    (markMandatory base pair).edges.find key =
      (base.edges.find key).map fun edge =>
        { edge with mandatory := edge.mandatory || decide ((key.source, key.target) = pair) } := by
  obtain ⟨source, target⟩ := pair
  unfold markMandatory
  by_cases hkey : (⟨source, target⟩ : EdgeKey) = key
  · subst hkey
    cases hfind : base.edges.find ⟨source, target⟩ <;> simp [hfind]
  · have hne : ¬ (key.source, key.target) = (source, target) := fun heq => by
      obtain ⟨keySource, keyTarget⟩ := key
      cases heq
      exact hkey rfl
    cases hfind : base.edges.find ⟨source, target⟩ <;> simp [hkey, hne]

/-- Marking edges changes their mandatory flags only. -/
theorem mark_all_find (base : Topology) (pairs : List (AgentId × AgentId)) :
    (pairs.foldl markMandatory base).edges.find key =
      (base.edges.find key).map fun edge =>
        { edge with mandatory := edge.mandatory || decide ((key.source, key.target) ∈ pairs) } := by
  induction pairs generalizing base with
  | nil => simp
  | cons pair pairs ih =>
      rw [List.foldl_cons, ih, mark_mandatory_find, Option.map_map]
      congr 1
      funext edge
      simp [List.mem_cons, Bool.or_assoc]

/-- Marking edges keeps agents and caps. -/
theorem mark_all_frame (base : Topology) (pairs : List (AgentId × AgentId)) :
    (pairs.foldl markMandatory base).activeAgents = base.activeAgents ∧
      (pairs.foldl markMandatory base).authorityCaps = base.authorityCaps := by
  induction pairs generalizing base with
  | nil => exact ⟨rfl, rfl⟩
  | cons pair pairs ih =>
      obtain ⟨hactive, hcaps⟩ := ih (markMandatory base pair)
      rw [List.foldl_cons, hactive, hcaps, markMandatory]
      split
      · exact ⟨rfl, rfl⟩
      · exact ⟨rfl, rfl⟩

/-- The pairs of agents that have an edge at the start. -/
def Connected (env : SyntheticEnv) (key : EdgeKey) : Prop :=
  (key.source ∈ env.agents ∧ key.target ∈ env.agents) ∧ key.source ≠ key.target

instance (env : SyntheticEnv) (key : EdgeKey) : Decidable (Connected env key) :=
  inferInstanceAs (Decidable (_ ∧ _))

/-- The edges of the first topology. -/
theorem base_find (env : SyntheticEnv) (key : EdgeKey) :
    (baseTopology env).edges.find key =
        (if Connected env key then
          some { Topology.wastefulEdge .latentPrefix key.source key.target with
            mandatory := decide ((key.source, key.target) ∈ env.mandatoryEdges) }
        else none) ∧
      (baseTopology env).authorityCaps.find key =
        if Connected env key then some .latentPrefix else none := by
  obtain ⟨hedge, hcap⟩ := Topology.fully_connected_find .latentPrefix env.agents key
  unfold baseTopology
  rw [mark_all_find, (mark_all_frame _ _).2, hedge, hcap]
  refine ⟨?_, rfl⟩
  show Option.map _ (if Connected env key then _ else _) = _
  split
  · rfl
  · rfl

/-- All agents of the first topology are active. -/
theorem base_active (env : SyntheticEnv) : (baseTopology env).activeAgents = env.agents := by
  unfold baseTopology
  rw [(mark_all_frame _ _).1]
  exact Topology.connect_all_active _ _ _

/-- The mandatory edges of the first topology are those of the environment. -/
theorem base_mandatory_iff :
    (baseTopology env).MandatoryAt key ↔
      Connected env key ∧ (key.source, key.target) ∈ env.mandatoryEdges := by
  unfold Topology.MandatoryAt
  rw [(base_find env key).1]
  split
  · rename_i hconnected
    simp [hconnected]
  · rename_i hconnected
    simp [hconnected]

/-- What an edge of the start is. -/
theorem base_edge {edge : Edge} (h : (baseTopology env).edges.find key = some edge) :
    Connected env key ∧ edge = { Topology.wastefulEdge .latentPrefix key.source key.target with
      mandatory := decide ((key.source, key.target) ∈ env.mandatoryEdges) } := by
  rw [(base_find env key).1] at h
  split at h
  · rename_i hconnected
    exact ⟨hconnected, (Option.some.inj h).symm⟩
  · cases h

/-- The edges of the first topology stand under their keys. -/
theorem base_keyed (env : SyntheticEnv) : (baseTopology env).Keyed := by
  intro key edge hedge
  obtain ⟨-, rfl⟩ := base_edge hedge
  exact ⟨rfl, rfl⟩

/-- The first topology meets the constitution. -/
theorem base_constitution (env : SyntheticEnv) : (baseTopology env).Constitution := by
  refine ⟨fun key edge hedge => ?_, fun key edge hedge _ => ?_, fun key edge hedge => ?_⟩
  · obtain ⟨hconnected, rfl⟩ := base_edge hedge
    show min Authority.contextInject .latentPrefix ≤ _
    rw [Topology.capFor, (base_find env key).2, if_pos hconnected]
    exact min_le_right _ _
  · obtain ⟨⟨⟨hsource, htarget⟩, -⟩, rfl⟩ := base_edge hedge
    rw [base_active]
    exact ⟨hsource, htarget⟩
  · obtain ⟨⟨-, hne⟩, rfl⟩ := base_edge hedge
    exact ⟨hne, hne⟩

/-- The two ends of an item are among the ends of all. -/
theorem contains_ends {α : Type} {items : List α} {item : α} (source target : α → AgentId)
    (h : item ∈ items) :
    (items.flatMap fun item => [source item, target item]).contains (source item) = true ∧
      (items.flatMap fun item => [source item, target item]).contains (target item) = true := by
  rw [List.contains_iff_mem, List.contains_iff_mem]
  exact ⟨List.mem_flatMap.mpr ⟨item, h, List.mem_cons_self ..⟩,
    List.mem_flatMap.mpr ⟨item, h, List.mem_cons_of_mem _ (List.mem_cons_self ..)⟩⟩

/-- A warm start only adds to the first topology. -/
theorem warm_start_follows (env : SyntheticEnv)
    (memory : Option (InMemoryStore F32 F64 × String)) :
    Topology.Follows (baseTopology env) (warmStart env memory (baseTopology env)).1 := by
  unfold warmStart
  split
  · exact .refl _
  · split
    · exact .refl _
    · dsimp only
      split
      · exact .refl _
      · -- the agents of the mandatory edges are kept
        refine Topology.follows_of_filter fun key edge hedge hmandatory => ?_
        obtain ⟨-, rfl⟩ := base_edge hedge
        obtain ⟨hsource, htarget⟩ :=
          contains_ends Prod.fst Prod.snd (of_decide_eq_true hmandatory)
        exact ⟨Bool.or_eq_true_iff.mpr (Or.inr hsource),
          Bool.or_eq_true_iff.mpr (Or.inr htarget)⟩

end Start

/-! ## The loop -/

/-- The audit follows the best topology. -/
theorem audit_follows (best : Topology)
    (edgeResults : List (AgentId × AgentId × F64 × Bool)) :
    Topology.Follows best (audit best edgeResults) := by
  have hedges : Topology.Follows best { best with edges := auditEdges best edgeResults } := by
    unfold auditEdges
    refine Topology.follows_of_retain fun key edge _ hmandatory => ?_
    rw [hmandatory, Bool.true_or]
  refine hedges.trans (@Topology.follows_of_filter
    { best with edges := auditEdges best edgeResults } _ fun key edge hedge _ => ?_)
  -- both ends of an edge that is left are needed
  exact contains_ends (fun entry => entry.2.source) (fun entry => entry.2.target)
    ((SortedMap.mem_entries_iff _ _ _).mpr hedge)

/-- A maximum is one of the items. -/
theorem max_by_mem {α : Type} {compare : α → α → Ordering} {items : List α} {item : α}
    (h : maxBy compare items = some item) : item ∈ items := by
  cases items with
  | nil => cases h
  | cons first rest =>
      cases h
      have hfold : ∀ best, rest.foldl
          (fun best item => if compare best item = .gt then best else item) best ∈
            best :: rest := by
        induction rest with
        | nil => exact fun best => List.mem_singleton_self best
        | cons second rest ih =>
            intro best
            rw [List.foldl_cons]
            split
            · exact List.mem_cons.mpr ((List.mem_cons.mp (ih best)).imp id
                (List.mem_cons_of_mem _))
            · exact List.mem_cons_of_mem _ (ih second)
      exact hfold first

section Loop

variable {ρ γ : Type} (rng : RandomSource ρ) (oracle : FitnessOracle γ) (ops : DoubleOps)
  (env : SyntheticEnv) (config : DarwinConfig)

/-- Every topology so far follows the start. -/
structure Lawful (base : Topology) (progress : Progress ρ γ) : Prop where
  best : Topology.Follows base progress.bestTopology
  reached : ∀ topology ∈ progress.reached, Topology.Follows base topology

variable {base : Topology} {progress : Progress ρ γ}

/-- Mutations of a child keep the progress lawful. -/
theorem Lawful.mutate_child (h : Lawful base progress) (turns : Nat) {child : Topology}
    (hchild : Topology.Follows base child) :
    Topology.Follows base (mutateChild rng env turns child progress).1 ∧
      Lawful base (mutateChild rng env turns child progress).2 := by
  induction turns generalizing child progress with
  | zero => exact ⟨hchild, h⟩
  | succ turns ih =>
      rw [mutateChild]
      dsimp only
      have hnext := hchild.trans (Topology.apply_mutation_follows child
        (randomMutation rng env.agents env.agents_length_pos child progress.rng).1)
      apply ih
      · exact ⟨h.best, List.forall_mem_append.mpr
          ⟨h.reached, List.forall_mem_singleton.mpr hnext⟩⟩
      · exact hnext

/-- Making children keeps the progress lawful. -/
theorem Lawful.make_children (h : Lawful base progress) (turns : Nat)
    {children : List (Topology × FitnessBreakdown)}
    (hchildren : ∀ child ∈ children, Topology.Follows base child.1) :
    (∀ child ∈ (makeChildren rng oracle env config turns children progress).1,
      Topology.Follows base child.1) ∧
      Lawful base (makeChildren rng oracle env config turns children progress).2 := by
  induction turns generalizing children progress with
  | zero => exact ⟨hchildren, h⟩
  | succ turns ih =>
      rw [makeChildren]
      dsimp only
      obtain ⟨hchild, hnext⟩ := h.mutate_child rng env config.mutationsPerChild h.best
      apply ih
      · exact ⟨hnext.best, hnext.reached⟩
      · exact List.forall_mem_append.mpr ⟨hchildren, List.forall_mem_singleton.mpr hchild⟩

/-- A generation keeps the progress lawful. -/
theorem Lawful.generation (h : Lawful base progress) :
    Lawful base (generation rng oracle ops env config progress) := by
  obtain ⟨hchildren, hnext⟩ :=
    h.make_children rng oracle env config config.population (List.forall_mem_nil _)
  unfold Evolve.generation
  dsimp only
  split
  · rename_i child breakdown hbest
    split
    · exact ⟨hchildren _ (max_by_mem hbest), hnext.reached⟩
    · exact hnext
  · exact hnext

/-- Generations keep the progress lawful. -/
theorem Lawful.generations (h : Lawful base progress) (turns : Nat) :
    Lawful base ((Evolve.generation rng oracle ops env config)^[turns] progress) := by
  induction turns generalizing progress with
  | zero => exact h
  | succ turns ih => exact ih (h.generation rng oracle ops env config)

/-- Every topology of a run follows the start. -/
theorem evolve_follows (memory : Option (InMemoryStore F32 F64 × String)) {topology : Topology}
    (h : topology ∈ (evolve rng oracle ops env config memory).reached ∨
      topology = (evolve rng oracle ops env config memory).outcome.bestTopology) :
    Topology.Follows (baseTopology env) topology := by
  have hwarm := warm_start_follows env memory
  unfold evolve at h
  dsimp only at h
  generalize hprogress : (Evolve.generation rng oracle ops env config)^[config.generations] _ =
    progress at h
  have hlawful : Lawful (baseTopology env) progress := by
    rw [← hprogress]
    exact Lawful.generations rng oracle ops env config
      ⟨hwarm, List.forall_mem_singleton.mpr hwarm⟩ config.generations
  have haudit := hlawful.best.trans (audit_follows _ progress.best.edgeResults)
  rcases h with hreached | rfl
  · rcases List.mem_append.mp hreached with hmem | hlast
    · exact hlawful.reached _ hmem
    · rw [List.mem_singleton.mp hlast]
      exact haudit
  · split
    · exact haudit
    · exact hlawful.best

end Loop

/-! ## The law -/

/-- Mutations and runs keep the constitution, the caps and the mandatory edges, and a refused
mutation changes nothing. -/
theorem constitution_kept :
    (∀ (start : Topology) (mutations : List Mutation), start.Constitution →
      (start.applyMutations mutations).Constitution ∧
      (start.applyMutations mutations).authorityCaps = start.authorityCaps ∧
      (∀ key, (start.applyMutations mutations).MandatoryAt key ↔ start.MandatoryAt key) ∧
      ∀ mutation error,
        ((start.applyMutations mutations).applyMutation mutation).2 = .error error →
          ((start.applyMutations mutations).applyMutation mutation).1 =
            start.applyMutations mutations) ∧
    ∀ (ρ γ : Type) (rng : RandomSource ρ) (oracle : FitnessOracle γ) (ops : DoubleOps)
      (env : SyntheticEnv) (config : DarwinConfig)
      (memory : Option (InMemoryStore F32 F64 × String)) (topology : Topology),
      topology ∈ (evolve rng oracle ops env config memory).reached ∨
        topology = (evolve rng oracle ops env config memory).outcome.bestTopology →
      topology.Constitution ∧ topology.Keyed ∧
      topology.authorityCaps = (baseTopology env).authorityCaps ∧
      ∀ key, topology.MandatoryAt key ↔
        Connected env key ∧ (key.source, key.target) ∈ env.mandatoryEdges := by
  constructor
  · intro start mutations hstart
    have hfollows := Topology.apply_mutations_follows start mutations
    exact ⟨hfollows.constitution hstart, hfollows.caps, hfollows.mandatory,
      fun _ _ => Topology.apply_mutation_error⟩
  · intro ρ γ rng oracle ops env config memory topology hreached
    have hfollows := evolve_follows rng oracle ops env config memory hreached
    exact ⟨hfollows.constitution (base_constitution env), hfollows.keyed (base_keyed env),
      hfollows.caps, fun key => (hfollows.mandatory key).trans base_mandatory_iff⟩

/-- A counter as a random source. -/
def sampleRandom : RandomSource Nat where
  seedFromU64 := UInt64.toNat
  genIndex bound hbound state := (⟨state % bound, Nat.mod_lt _ hbound⟩, state + 1)
  genKind state := (⟨state % 10, Nat.mod_lt _ (by decide)⟩, state + 1)
  choose encodings state := (encodings[state % encodings.length]?, state + 1)

/-- An oracle that finds all topologies alike. -/
def sampleOracle : FitnessOracle Unit where
  newCache := ()
  evaluate _ _ _ _ := (⟨.zero, .zero, .zero, .zero, .zero, .zero, [], 0⟩, ())

/-- Operations that keep their first argument and compare the bits. -/
def sampleDoubles : DoubleOps where
  add first _ := first
  div first _ := first
  lt first second := first.bits < second.bits
  le first second := first.bits ≤ second.bits
  partialCmp first second := some (compare first.bits second.bits)
  ofNat _ := .zero

/-- The theorem at three mutations and a run. -/
theorem constitution_kept_sample :
    ((baseTopology .new).applyMutations [.removeEdge 9 1, .deactivateAgent 9,
      .removeEdge 0 1]).MandatoryAt ⟨9, 1⟩ ∧
    Topology.MandatoryAt
      (evolve sampleRandom sampleOracle sampleDoubles .new .default none).outcome.bestTopology
      ⟨9, 1⟩ := by
  have hmandatory : Connected .new ⟨9, 1⟩ ∧
      ((9, 1) : AgentId × AgentId) ∈ SyntheticEnv.new.mandatoryEdges := by decide
  refine ⟨?_, ?_⟩
  · exact ((constitution_kept.1 _ _ (base_constitution .new)).2.2.1 _).mpr
      (base_mandatory_iff.mpr hmandatory)
  · exact ((constitution_kept.2 _ _ sampleRandom sampleOracle sampleDoubles .new .default none _
      (Or.inr rfl)).2.2.2 _).mpr hmandatory

end LatentMesh.Evolve
