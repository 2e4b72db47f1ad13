import LatentMesh.Evolve.Verification

/-!
# Acceptance of a run

`acceptance_check` of `receipt.rs`. Its bound on the surviving edges is met by every run, unless the
audit at the end was given up because it would have made the result less fit
(`surviving_edges_verified`).
-/

namespace LatentMesh.Evolve

open LatentMesh.Lib LatentMesh.Core LatentMesh.Memory

/-- What a run saved, and whether it kept the success of the task. -/
structure AcceptanceReport where
  computeReduction : F64
  computeReductionTarget : F64
  computeReductionMet : Bool
  taskSuccessBefore : F64
  taskSuccessAfter : F64
  taskSuccessMaintained : Bool
  survivingEdges : Nat
  unverifiedNonmandatoryEdges : Nat
  allSurvivingEdgesVerified : Bool
  passed : Bool

/-- The ends of the mandatory edges. -/
def mandatoryPairs (topology : Topology) : List (AgentId × AgentId) :=
  ((topology.edges.entries.map Prod.snd).filter Edge.mandatory).map fun edge =>
    (edge.source, edge.target)

/-- The results that are neither verified nor mandatory. -/
def unverifiedNonmandatory (outcome : EvolveOutcome) :
    List (AgentId × AgentId × F64 × Bool) :=
  outcome.best.edgeResults.filter fun result =>
    !result.2.2.2 && !(mandatoryPairs outcome.bestTopology).contains (result.1, result.2.1)

/-- The constants are 1.0, 0.30 and 1e-9. -/
def acceptanceCheck (ops : FitnessOps) (outcome : EvolveOutcome) : AcceptanceReport :=
  let before := outcome.initial.cost
  let after := outcome.best.cost
  let computeReduction :=
    if ops.lt .zero before then ops.sub ⟨0x3ff0000000000000⟩ (ops.div after before) else .zero
  let computeReductionTarget : F64 := ⟨0x3fd3333333333333⟩
  let computeReductionMet := ops.le computeReductionTarget computeReduction
  let taskSuccessMaintained :=
    ops.le (ops.sub outcome.initial.taskSuccess ⟨0x3e112e0be826d695⟩) outcome.best.taskSuccess
  let unverified := (unverifiedNonmandatory outcome).length
  let allVerified := unverified == 0
  { computeReduction := computeReduction
    computeReductionTarget := computeReductionTarget
    computeReductionMet := computeReductionMet
    taskSuccessBefore := outcome.initial.taskSuccess
    taskSuccessAfter := outcome.best.taskSuccess
    taskSuccessMaintained := taskSuccessMaintained
    survivingEdges := outcome.best.edgeResults.length
    unverifiedNonmandatoryEdges := unverified
    allSurvivingEdgesVerified := allVerified
    passed := computeReductionMet && taskSuccessMaintained && allVerified }

/-- An edge that the audit leaves is mandatory, or no result rejects it. -/
theorem audit_edge {best : Topology} {edgeResults : List (AgentId × AgentId × F64 × Bool)}
    {edge : Edge} {key : EdgeKey} (h : (audit best edgeResults).edges.find key = some edge) :
    edge.mandatory = true ∨
      ∀ result ∈ edgeResults, resultKey result = key → result.2.2.2 = true := by
  have hkeep := (SortedMap.find_retain_eq_some_iff.mp h).2
  rw [Bool.or_eq_true] at hkeep
  refine hkeep.imp_right fun hrest result hresult hkey => ?_
  rw [Bool.and_eq_true, Bool.and_eq_true, Bool.not_eq_true'] at hrest
  by_contra hrejected
  have hmem : key ∈ (edgeResults.filter fun result => !result.2.2.2).map fun result =>
      (⟨result.1, result.2.1⟩ : EdgeKey) :=
    List.mem_map.mpr ⟨result, List.mem_filter.mpr ⟨hresult, by simpa using hrejected⟩, hkey⟩
  rw [List.contains_iff_mem.mpr hmem] at hrest
  exact absurd hrest.1.1 Bool.noConfusion

variable {ρ : Type} (rng : RandomSource ρ) (ops : FitnessOps) (verifier : Verifier)
  (env : SyntheticEnv) (config : DarwinConfig) (memory : Option (InMemoryStore F32 F64 × String))

/-- A run ends with the best topology of its generations, or with the audit of it. -/
theorem evolve_ends :
    ∃ last : Progress ρ VerificationCache, Accounted verifier env config last ∧
      let audited := audit last.bestTopology last.best.edgeResults
      let fit := (evaluate ops verifier config.weights config.seed audited last.cache).1
      let outcome :=
        (evolve rng (cachingOracle ops verifier) ops.toDoubleOps env config memory).outcome
      (outcome.best, outcome.bestTopology) =
        if ops.le last.best.fitness fit.fitness then (fit, audited)
        else (last.best, last.bestTopology) := by
  exact ⟨_, ((start_accounted rng ops memory).generations rng ops config.generations).1, rfl⟩

/-- Every edge that is left at the end of a run is verified or mandatory, unless the result would be
less fit for an audit. -/
theorem surviving_edges_verified :
    let outcome :=
      (evolve rng (cachingOracle ops verifier) ops.toDoubleOps env config memory).outcome
    (acceptanceCheck ops outcome).allSurvivingEdgesVerified = true ∨
      ops.le outcome.best.fitness (evaluate ops verifier config.weights config.seed
        (audit outcome.bestTopology outcome.best.edgeResults) .empty).1.fitness = false := by
  obtain ⟨last, hlast, hends⟩ := evolve_ends rng ops verifier env config memory
  dsimp only at hends ⊢
  generalize (evolve rng (cachingOracle ops verifier) ops.toDoubleOps env config memory).outcome =
    outcome at hends ⊢
  have hspans := audit_spans hlast.best.spans last.best.edgeResults
  have hfitness := congrArg FitnessBreakdown.fitness
    (hlast.truthful.evaluate ops hspans).1
  split at hends
  · obtain ⟨hbest, htopology⟩ := Prod.mk.inj hends
    refine Or.inl (beq_iff_eq.mpr (List.length_eq_zero_iff.mpr
      (List.filter_eq_nil_iff.mpr fun result hresult => ?_)))
    rw [hbest, evaluate_edge_results hlast.truthful.memoizes] at hresult
    obtain ⟨edge, hedge, rfl⟩ := List.mem_map.mp hresult
    obtain ⟨⟨key, hkey⟩, -⟩ := mem_live_edges.mp hedge
    obtain ⟨rfl, -⟩ := hspans key edge hkey
    rw [Bool.and_eq_true, Bool.not_eq_true', Bool.not_eq_true', not_and_or]
    rcases audit_edge hkey with hmandatory | hverified
    · -- its ends are those of a mandatory edge
      right
      have hmem : (edge.source, edge.target) ∈ mandatoryPairs outcome.bestTopology := by
        rw [htopology]
        exact List.mem_map.mpr ⟨edge, List.mem_filter.mpr ⟨List.mem_map.mpr
          ⟨(edge.key, edge), (SortedMap.mem_entries_iff _ _ _).mpr hkey, rfl⟩, hmandatory⟩, rfl⟩
      rw [show (edgeResult verifier config.weights config.seed edge).1 = edge.source from rfl,
        show (edgeResult verifier config.weights config.seed edge).2.1 = edge.target from rfl,
        List.contains_iff_mem.mpr hmem]
      exact Bool.noConfusion
    · -- it was live before the audit, with the same verdict
      left
      have hbefore :
          edgeResult verifier config.weights config.seed edge ∈ last.best.edgeResults := by
        rw [hlast.best.results]
        exact List.mem_map_of_mem (audit_live_edges hedge)
      rw [hverified _ hbefore rfl]
      exact Bool.noConfusion
  · rename_i hrefused
    obtain ⟨hbest, htopology⟩ := Prod.mk.inj hends
    rw [hbest, htopology]
    exact Or.inr ((congrArg (ops.le _) hfitness).symm.trans
      (Bool.eq_false_of_not_eq_true hrefused))

end LatentMesh.Evolve
