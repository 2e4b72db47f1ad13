import LatentMesh.Harness.Cache
import LatentMesh.Lib.Selection
import LatentMesh.Lib.Traverse

/-!
# The champion

The champion of a run is the root policy or a proposal that was promoted, with the largest fitness
of them (`champion_of_run`), and no eligible champion is better than the one that the exhaustive
search finds, where that search succeeds (`champion_within_exhaustive`).
-/

namespace LatentMesh.Harness

open LatentMesh.Reasoning (CostScale)
open LatentMesh.Lib

variable {σ μ : Type} {showNumber : ℚ → String} {corpus : List Evidence} {scale : CostScale}

/-- No reason stands against a candidate but its fitness. -/
def Eligible (showNumber : ℚ → String) (corpus : List Evidence) (candidate : Evaluation) : Prop :=
  floorReasons showNumber corpus candidate = []

instance (candidate : Evaluation) : Decidable (Eligible showNumber corpus candidate) :=
  inferInstanceAs (Decidable (_ = _))

/-- A candidate is promoted when it is eligible and better than the champion. -/
theorem promotion_rule_iff {candidate : Evaluation} {incumbent : Option Evaluation} :
    promotionRule showNumber corpus candidate incumbent = [] ↔
      (∀ held, incumbent = some held → held.number < candidate.number) ∧
        Eligible showNumber corpus candidate := by
  unfold promotionRule Eligible
  rw [List.append_eq_nil_iff]
  cases incumbent with
  | none => simp
  | some held => simp

/-! ## What the search keeps -/

/-- A line of the trace is about a genome of the lattice and its evaluation. -/
def TraceEntry.Faithful (showNumber : ℚ → String) (corpus : List Evidence) (scale : CostScale)
    (entry : TraceEntry) : Prop :=
  ∃ genome ∈ enumerateGenomes, ∃ evaluation,
    evaluate showNumber corpus scale genome = .ok evaluation ∧
      entry.proposed = genomeKey showNumber genome ∧ entry.selected = evaluation.selected ∧
      entry.fitness = evaluation.fitness ∧
      (entry.promoted = true → Eligible showNumber corpus evaluation)

/-- The champion is the best of the root policy and of the promoted proposals. -/
structure Report (showNumber : ℚ → String) (corpus : List Evidence) (scale : CostScale)
    (root : Evaluation) (search : Search σ μ) : Prop where
  scored : Scored showNumber corpus scale search.champion
  above : root.number ≤ search.champion.number
  earned : search.champion = root ∨
    Eligible showNumber corpus search.champion ∧ ∃ entry ∈ search.trace, entry.promoted = true ∧
      entry.proposed = genomeKey showNumber search.champion.genome ∧
      entry.fitness = search.champion.fitness
  best : ∀ entry ∈ search.trace, entry.promoted = true →
    entry.fitness.getD 0 ≤ search.champion.number
  faithful : ∀ entry ∈ search.trace, entry.Faithful showNumber corpus scale

variable {root : Evaluation}

/-- The line that a generation adds. -/
def lineOf (showNumber : ℚ → String) (corpus : List Evidence) (search : Search σ μ)
    (generation : Nat) (proposal : σ × Genome) (scored : Evaluation × μ) : TraceEntry where
  generation
  proposed := genomeKey showNumber proposal.2
  selected := scored.1.selected
  fitness := scored.1.fitness
  promoted := decide (promotionRule showNumber corpus scored.1 (some search.incumbent) = [])
  reasons := promotionRule showNumber corpus scored.1 (some search.incumbent)
  incumbent := genomeKey showNumber
    (climb showNumber corpus search generation proposal scored).incumbent.genome
  incumbentFitness :=
    (climb showNumber corpus search generation proposal scored).incumbent.fitness

/-- A climb adds an entry to the trace. -/
theorem climb_trace (search : Search σ μ) (generation : Nat) (proposal : σ × Genome)
    (scored : Evaluation × μ) :
    (climb showNumber corpus search generation proposal scored).trace =
      search.trace ++ [lineOf showNumber corpus search generation proposal scored] := rfl

/-- What holds of all lines and of the new one holds of all lines of the next trace. -/
theorem forall_climb_trace {P : TraceEntry → Prop} {search : Search σ μ} {generation : Nat}
    {proposal : σ × Genome} {scored : Evaluation × μ} (hall : ∀ entry ∈ search.trace, P entry)
    (hlast : P (lineOf showNumber corpus search generation proposal scored)) :
    ∀ entry ∈ (climb showNumber corpus search generation proposal scored).trace, P entry := by
  intro entry hentry
  rw [climb_trace] at hentry
  rcases List.mem_append.mp hentry with hold | hnew
  · exact hall entry hold
  · exact List.mem_singleton.mp hnew ▸ hlast

/-- The champion after a generation: the same, or a better one that was promoted. -/
theorem climb_champion_cases (showNumber : ℚ → String) (corpus : List Evidence)
    (search : Search σ μ) (generation : Nat) (proposal : σ × Genome) (scored : Evaluation × μ) :
    ((climb showNumber corpus search generation proposal scored).champion = scored.1 ∧
        promotionRule showNumber corpus scored.1 (some search.incumbent) = [] ∧
        Eligible showNumber corpus scored.1 ∧ search.champion.number < scored.1.number) ∨
      ((climb showNumber corpus search generation proposal scored).champion = search.champion ∧
        (promotionRule showNumber corpus scored.1 (some search.incumbent) = [] →
          scored.1.number ≤ search.champion.number)) := by
  by_cases hboth : promotionRule showNumber corpus scored.1 (some search.incumbent) = [] ∧
      promotionRule showNumber corpus scored.1 (some search.champion) = []
  · obtain ⟨habove, heligible⟩ := promotion_rule_iff.mp hboth.2
    exact Or.inl ⟨if_pos hboth, hboth.1, heligible, habove _ rfl⟩
  · refine Or.inr ⟨if_neg hboth, fun hreasons => not_lt.mp fun hlt => hboth ⟨hreasons, ?_⟩⟩
    exact promotion_rule_iff.mpr
      ⟨fun held hheld => Option.some.inj hheld ▸ hlt, (promotion_rule_iff.mp hreasons).2⟩

/-- A climb keeps the report of the search. -/
theorem Report.climb {search : Search σ μ} (h : Report showNumber corpus scale root search)
    (generation : Nat) {proposal : σ × Genome} {scored : Evaluation × μ}
    (hproposal : proposal.2 ∈ enumerateGenomes)
    (hscored : evaluate showNumber corpus scale proposal.2 = .ok scored.1) :
    Report showNumber corpus scale root
      (climb showNumber corpus search generation proposal scored) := by
  have hfaithful : (lineOf showNumber corpus search generation proposal scored).Faithful showNumber
      corpus scale :=
    ⟨proposal.2, hproposal, scored.1, hscored, rfl, rfl, rfl, fun hpromoted =>
      (promotion_rule_iff.mp (of_decide_eq_true hpromoted)).2⟩
  rcases climb_champion_cases showNumber corpus search generation proposal scored with
    ⟨hchampion, hreasons, heligible, hlt⟩ | ⟨hchampion, hbelow⟩
  · -- the proposal is the new champion
    refine ⟨?_, ?_, ?_, ?_, forall_climb_trace h.faithful hfaithful⟩
    · rw [hchampion]
      exact ⟨proposal.2, hproposal, hscored⟩
    · rw [hchampion]
      exact le_trans h.above (le_of_lt hlt)
    · rw [hchampion, climb_trace]
      refine Or.inr ⟨heligible, _, List.mem_append_right _ (List.mem_singleton_self _),
        decide_eq_true hreasons, ?_, rfl⟩
      rw [genome_of_evaluate hscored]
      rfl
    · rw [hchampion]
      exact forall_climb_trace (fun entry hentry hpromoted =>
        le_trans (h.best entry hentry hpromoted) (le_of_lt hlt)) fun _ => le_refl _
  · -- the champion stays
    refine ⟨?_, ?_, ?_, ?_, forall_climb_trace h.faithful hfaithful⟩
    · rw [hchampion]
      exact h.scored
    · rw [hchampion]
      exact h.above
    · rw [hchampion, climb_trace]
      refine h.earned.imp_right fun ⟨heligible, entry, hentry, hrest⟩ => ?_
      exact ⟨heligible, entry, List.mem_append_left _ hentry, hrest⟩
    · rw [hchampion]
      exact forall_climb_trace h.best fun hpromoted => hbelow (of_decide_eq_true hpromoted)

/-- Scoring afresh is an evaluation. -/
theorem score_afresh_eq_ok {genome : Genome} {scored : Evaluation × Unit}
    (h : scoreAfresh showNumber corpus scale () genome = .ok scored) :
    evaluate showNumber corpus scale genome = .ok scored.1 := by
  obtain ⟨evaluation, hevaluation, rfl⟩ := map_eq_ok_iff.mp h
  exact hevaluation

/-- The loop starts from the root policy, and every generation keeps the report. -/
theorem search_report {rng : Rng σ} {seed : σ} {generations restartEvery : Nat}
    {search : Search σ Unit}
    (h : searchWith showNumber rng corpus (scoreAfresh showNumber corpus scale) () seed generations
      restartEvery = .ok search) :
    ∃ root, evaluate showNumber corpus scale rootPolicy = .ok root ∧
      Report showNumber corpus scale root search := by
  obtain ⟨⟨root, _⟩, hroot, hloop⟩ := bind_eq_ok_iff.mp h
  have hevaluate : evaluate showNumber corpus scale rootPolicy = .ok root :=
    score_afresh_eq_ok hroot
  have hscored : Scored showNumber corpus scale root := ⟨rootPolicy, root_policy_mem, hevaluate⟩
  refine ⟨root, hevaluate, ?_⟩
  suffices hkeeps : Report showNumber corpus scale root search ∧
      Scored showNumber corpus scale search.incumbent from hkeeps.1
  refine foldlM_keeps (fun search : Search σ Unit => Report showNumber corpus scale root search ∧
    Scored showNumber corpus scale search.incumbent) ?_ ?_ hloop
  · rintro search next generation - ⟨hreport, hincumbent⟩ hstep
    obtain ⟨climbed, hclimb, hrest⟩ := bind_eq_ok_iff.mp hstep
    obtain ⟨scored, hproposal, rfl⟩ := map_eq_ok_iff.mp hclimb
    have hmem : (mutate rng search.incumbent.genome search.state).2 ∈ enumerateGenomes :=
      mutate_mem (genome_mem_of_scored hincumbent) search.state
    have hnext := hreport.climb generation hmem (score_afresh_eq_ok hproposal)
    have hheld : Scored showNumber corpus scale (climb showNumber corpus search generation
        (mutate rng search.incumbent.genome search.state) scored).incumbent := by
      unfold climb
      dsimp only
      split
      · exact ⟨_, hmem, score_afresh_eq_ok hproposal⟩
      · exact hincumbent
    by_cases hrestart : generation % restartEvery = 0
    · rw [if_pos hrestart] at hrest
      obtain ⟨point, hpoint, rfl⟩ := map_eq_ok_iff.mp hrest
      exact ⟨⟨hnext.scored, hnext.above, hnext.earned, hnext.best, hnext.faithful⟩,
        _, restart_mem _, score_afresh_eq_ok hpoint⟩
    · rw [if_neg hrestart] at hrest
      cases hrest
      exact ⟨hnext, hheld⟩
  · exact ⟨⟨hscored, le_refl _, Or.inl rfl, fun _ hentry => absurd hentry List.not_mem_nil,
      fun _ hentry => absurd hentry List.not_mem_nil⟩, hscored⟩

/-- A run with the cache is a run without it. -/
theorem afresh_of_run (hshow : ShowsAlphas showNumber) {rng : Rng σ} {seed : σ}
    {generations restartEvery : Nat} {search : Search σ (SortedMap String Evaluation)}
    (h : runEvolve showNumber rng corpus scale seed generations restartEvery = .ok search) :
    ∃ afresh, searchWith showNumber rng corpus (scoreAfresh showNumber corpus scale) () seed
      generations restartEvery = .ok afresh ∧ search.forget = afresh := by
  have hagree := run_evolve_agrees hshow rng corpus scale seed generations restartEvery
  rw [h] at hagree
  obtain ⟨afresh, hafresh, htracks⟩ := hagree.exists_of_ok
  exact ⟨afresh, hafresh, htracks.forget⟩

/-! ## The exhaustive search -/

/-- The exhaustive search takes the first of the largest eligible evaluations. -/
theorem exhaustive_champion {best : Option Evaluation}
    (h : exhaustiveChampion showNumber corpus scale = .ok best) :
    ∃ evaluations, List.Forall₂
        (fun genome evaluation => evaluate showNumber corpus scale genome = .ok evaluation)
        enumerateGenomes evaluations ∧
      IsChampion (Eligible showNumber corpus) Evaluation.number evaluations best := by
  have hstep : ∀ (best : Option Evaluation) (evaluated : Evaluation),
      (if promotionRule showNumber corpus evaluated best = [] then some evaluated else best) =
        improve (Eligible showNumber corpus) Evaluation.number best evaluated := by
    intro best evaluated
    exact if_congr promotion_rule_iff rfl rfl
  unfold exhaustiveChampion at h
  simp only [hstep] at h
  rw [foldlM_map_eq] at h
  obtain ⟨evaluations, hevaluations, rfl⟩ := map_eq_ok_iff.mp h
  exact ⟨evaluations, map_m_eq_ok_iff.mp hevaluations, is_champion_fold _ _ evaluations⟩

/-- In every run, the champion is the best of the root policy and of the promoted proposals, and the
trace tells what was proposed. -/
theorem champion_of_run (showNumber : ℚ → String) (hshow : ShowsAlphas showNumber) (rng : Rng σ)
    (corpus : List Evidence) (scale : CostScale) (seed : σ) (generations restartEvery : Nat)
    {search : Search σ (SortedMap String Evaluation)}
    (h : runEvolve showNumber rng corpus scale seed generations restartEvery = .ok search) :
    ∃ root, evaluate showNumber corpus scale rootPolicy = .ok root ∧
      Report showNumber corpus scale root search := by
  obtain ⟨afresh, hafresh, hforget⟩ := afresh_of_run hshow h
  obtain ⟨root, hroot, hreport⟩ := search_report hafresh
  subst hforget
  exact ⟨root, hroot,
    hreport.scored, hreport.above, hreport.earned, hreport.best, hreport.faithful⟩

/-- A run over a text that beats four controls, which succeeds. -/
theorem sample_run : ∃ search,
    runEvolve alphaText makeRng [sampleEvidence] ⟨100, 2, 1, 1⟩ 0x1ea7be57 2 2 = .ok search := by
  have hfound : (runEvolve alphaText makeRng [sampleEvidence] ⟨100, 2, 1, 1⟩ 0x1ea7be57 2
      2).toOption.isSome = true := by
    decide +kernel
  cases h : runEvolve alphaText makeRng [sampleEvidence] ⟨100, 2, 1, 1⟩ 0x1ea7be57 2 2 with
  | error error =>
      rw [h] at hfound
      cases hfound
  | ok search => exact ⟨search, rfl⟩

/-- The theorem at one piece of evidence and two generations. -/
theorem champion_of_run_sample : ∃ search root,
    runEvolve alphaText makeRng [sampleEvidence] ⟨100, 2, 1, 1⟩ 0x1ea7be57 2 2 = .ok search ∧
      Report alphaText [sampleEvidence] ⟨100, 2, 1, 1⟩ root search := by
  obtain ⟨search, h⟩ := sample_run
  obtain ⟨root, -, hreport⟩ := champion_of_run alphaText alpha_text_shows makeRng
    [sampleEvidence] ⟨100, 2, 1, 1⟩ 0x1ea7be57 2 2 h
  exact ⟨search, root, h, hreport⟩

/-- The champion of the exhaustive search is the first of the best eligible genomes of the lattice,
and an eligible champion of any run is no better. -/
theorem champion_within_exhaustive (showNumber : ℚ → String) (hshow : ShowsAlphas showNumber)
    (corpus : List Evidence) (scale : CostScale) {best : Option Evaluation}
    (hbest : exhaustiveChampion showNumber corpus scale = .ok best) :
    (∃ evaluations,
      List.Forall₂
        (fun genome evaluation => evaluate showNumber corpus scale genome = .ok evaluation)
        enumerateGenomes evaluations ∧
      IsChampion (Eligible showNumber corpus) Evaluation.number evaluations best) ∧
    ∀ (rng : Rng σ) (seed : σ) (generations restartEvery : Nat)
      (search : Search σ (SortedMap String Evaluation)),
      runEvolve showNumber rng corpus scale seed generations restartEvery = .ok search →
      Eligible showNumber corpus search.champion →
        ∃ held, best = some held ∧ search.champion.number ≤ held.number := by
  obtain ⟨evaluations, hevaluations, hchampion⟩ := exhaustive_champion hbest
  refine ⟨⟨evaluations, hevaluations, hchampion⟩, ?_⟩
  intro rng seed generations restartEvery search h heligible
  obtain ⟨afresh, hafresh, hforget⟩ := afresh_of_run hshow h
  obtain ⟨root, -, hreport⟩ := search_report hafresh
  subst hforget
  refine hchampion.le ?_ heligible
  -- the champion is the evaluation of a genome of the lattice
  obtain ⟨genome, hgenome, hevaluate⟩ := hreport.scored
  obtain ⟨evaluation, hmem, hfound⟩ := exists_of_forall₂ hevaluations hgenome
  rw [hfound] at hevaluate
  exact Except.ok.inj hevaluate ▸ hmem

/-- The theorem at one piece of evidence and two generations. -/
theorem champion_within_exhaustive_sample : ∃ search best,
    runEvolve alphaText makeRng [sampleEvidence] ⟨100, 2, 1, 1⟩ 0x1ea7be57 2 2 = .ok search ∧
      exhaustiveChampion alphaText [sampleEvidence] ⟨100, 2, 1, 1⟩ = .ok best ∧
      (Eligible alphaText [sampleEvidence] search.champion →
        ∃ held, best = some held ∧ search.champion.number ≤ held.number) := by
  obtain ⟨search, h⟩ := sample_run
  have hexhaustive : (exhaustiveChampion alphaText [sampleEvidence]
      ⟨100, 2, 1, 1⟩).toOption.isSome = true := by
    decide +kernel
  cases hbest : exhaustiveChampion alphaText [sampleEvidence] ⟨100, 2, 1, 1⟩ with
  | error error =>
      rw [hbest] at hexhaustive
      cases hexhaustive
  | ok best =>
      have hle := (champion_within_exhaustive alphaText alpha_text_shows [sampleEvidence]
        ⟨100, 2, 1, 1⟩ hbest).2 makeRng 0x1ea7be57 2 2 search h
      exact ⟨search, best, h, rfl, hle⟩

end LatentMesh.Harness
