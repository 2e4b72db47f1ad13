import LatentMesh.Harness.Search
import LatentMesh.Lib.Lines

/-!
# The search and its cache

`runEvolve` scores a genome once. The genomes that it proposes stay in the lattice, and the keys
tell the genomes of the lattice apart, so that it is the search that evaluates every proposal afresh
(`cache_transparent`).
-/

namespace LatentMesh.Harness

open LatentMesh.Reasoning (CostScale)
open LatentMesh.Lib

/-! ## The lattice -/

/-- The enumerated policies are all choices of the genes. -/
theorem mem_enumerate_iff {genome : Genome} :
    genome ∈ enumerateGenomes ↔
      genome.channel ∈ channels ∧ genome.admission ∈ admissions ∧
        genome.controls ∈ controlSets ∧ genome.alpha ∈ alphas ∧
          genome.costWeights ∈ costWeightNames := by
  obtain ⟨channel, admission, controls, alpha, costWeights⟩ := genome
  simp only [enumerateGenomes, costWeightNames, List.mem_flatMap, List.mem_map, Genome.mk.injEq]
  constructor
  · rintro ⟨_, hchannel, _, hadmission, _, hcontrols, _, halpha, weights, hweights, rfl, rfl, rfl,
      rfl, rfl⟩
    exact ⟨hchannel, hadmission, hcontrols, halpha, weights, hweights, rfl⟩
  · rintro ⟨hchannel, hadmission, hcontrols, halpha, weights, hweights, rfl⟩
    exact ⟨_, hchannel, _, hadmission, _, hcontrols, _, halpha, weights, hweights, rfl, rfl, rfl,
      rfl, rfl⟩

/-- The root policy is enumerated. -/
theorem root_policy_mem : rootPolicy ∈ enumerateGenomes :=
  mem_enumerate_iff.mpr (by decide +kernel)

/-- An index within a list finds an item. -/
theorem getD_mem {α : Type} {domain : List α} {index : Nat} (h : index < domain.length)
    (fallback : α) : domain.getD index fallback ∈ domain := by
  rw [List.getD_eq_getElem?_getD, List.getElem?_eq_getElem h]
  exact List.getElem_mem h

/-- A step stays in its domain. -/
theorem step_in_mem {α : Type} {domain : List α} (h : 0 < domain.length) (current : α)
    (same : α → Bool) (number : ℚ) : stepIn domain current same number ∈ domain :=
  getD_mem (Nat.mod_lt _ h) current

/-- A number below one is scaled to an index. -/
theorem scaled_lt {number : ℚ} {count : Nat} (hnumber : number < 1) (hcount : 0 < count) :
    scaled number count < count := by
  have hfloor : ⌊number * count⌋ < (count : ℤ) := by
    rw [Int.floor_lt]
    push_cast
    exact mul_lt_of_lt_one_left (Nat.cast_pos.mpr hcount) hnumber
  rw [scaled]
  omega

variable {σ : Type} {rng : Rng σ}

/-- A random choice is in the domain. -/
theorem choose_mem {α : Type} {domain : List α} (h : 0 < domain.length) (fallback : α)
    (state : σ) : (choose rng domain fallback state).2 ∈ domain :=
  getD_mem (scaled_lt (rng.range state).2 h) fallback

/-- A mutation changes one gene, within its domain. -/
theorem mutate_gene_mem {genome : Genome} (h : genome ∈ enumerateGenomes) (gene : Gene)
    (number : ℚ) : mutateGene genome gene number ∈ enumerateGenomes := by
  obtain ⟨hchannel, hadmission, hcontrols, halpha, hweights⟩ := mem_enumerate_iff.mp h
  rw [mem_enumerate_iff]
  cases gene with
  | channel => exact ⟨step_in_mem (by decide) _ _ _, hadmission, hcontrols, halpha, hweights⟩
  | admission => exact ⟨hchannel, step_in_mem (by decide) _ _ _, hcontrols, halpha, hweights⟩
  | controls => exact ⟨hchannel, hadmission, step_in_mem (by decide) _ _ _, halpha, hweights⟩
  | alpha => exact ⟨hchannel, hadmission, hcontrols, step_in_mem (by decide) _ _ _, hweights⟩
  | costWeights => exact ⟨hchannel, hadmission, hcontrols, halpha, step_in_mem (by decide) _ _ _⟩

/-- A mutation of an enumerated policy is enumerated. -/
theorem mutate_mem {genome : Genome} (h : genome ∈ enumerateGenomes) (state : σ) :
    (mutate rng genome state).2 ∈ enumerateGenomes :=
  mutate_gene_mem h _ _

/-- A random policy is enumerated. -/
theorem restart_mem (state : σ) : (restart rng state).2 ∈ enumerateGenomes :=
  mem_enumerate_iff.mpr ⟨choose_mem (by decide) _ _, choose_mem (by decide) _ _,
    choose_mem (by decide) _ _, choose_mem (by decide) _ _, choose_mem (by decide) _ _⟩

/-! ## The keys -/

/-- The texts of the alphas differ, and have no bar. -/
structure ShowsAlphas (showNumber : ℚ → String) : Prop where
  injective : ∀ alpha ∈ alphas, ∀ other ∈ alphas,
    showNumber alpha = showNumber other → alpha = other
  no_bar : ∀ alpha ∈ alphas, '|' ∉ (showNumber alpha).toList

variable {showNumber : ℚ → String}

/-- The key of an enumerated policy tells the policy. -/
theorem genome_key_inj (hshow : ShowsAlphas showNumber) {genome other : Genome}
    (hgenome : genome ∈ enumerateGenomes) (hother : other ∈ enumerateGenomes)
    (h : genomeKey showNumber genome = genomeKey showNumber other) : genome = other := by
  obtain ⟨channel, admission, controls, alpha, costWeights⟩ := genome
  obtain ⟨channel', admission', controls', alpha', costWeights'⟩ := other
  obtain ⟨-, -, hcontrols, halpha, -⟩ := mem_enumerate_iff.mp hgenome
  obtain ⟨-, -, hcontrols', halpha', -⟩ := mem_enumerate_iff.mp hother
  have hchannels : ∀ channel : Channel, '|' ∉ channel.name.toList := by
    intro channel
    cases channel <;> decide
  have hadmissions : ∀ admission : AdmissionGene, '|' ∉ admission.name.toList := by
    intro admission
    cases admission <;> decide
  have hjoined : ∀ controls ∈ controlSets, '|' ∉ (joined controls).toList := by
    decide +kernel
  have htexts := congrArg String.toList h
  simp only [genomeKey, String.toList_append, List.append_assoc] at htexts
  obtain ⟨hchannel, htexts⟩ := field_inj (hchannels channel) (hchannels channel') htexts
  obtain ⟨hadmission, htexts⟩ := field_inj (hadmissions admission) (hadmissions admission') htexts
  obtain ⟨hcontrol, htexts⟩ :=
    field_inj (hjoined controls hcontrols) (hjoined controls' hcontrols') htexts
  obtain ⟨hnumber, hname⟩ :=
    field_inj (hshow.no_bar alpha halpha) (hshow.no_bar alpha' halpha') htexts
  have hchannel : channel = channel' := by
    revert hchannel
    cases channel <;> cases channel' <;> decide
  have hadmission : admission = admission' := by
    revert hadmission
    cases admission <;> cases admission' <;> decide
  have hsets : ∀ controls ∈ controlSets, ∀ others ∈ controlSets,
      (joined controls).toList = (joined others).toList → controls = others := by
    decide +kernel
  rw [hchannel, hadmission, hsets controls hcontrols controls' hcontrols' hcontrol,
    hshow.injective alpha halpha alpha' halpha' (String.toList_inj.mp hnumber),
    String.toList_inj.mp hname]

/-! ## The cache -/

variable {corpus : List Evidence} {scale : CostScale}

/-- An evaluation of a genome of the lattice. -/
def Scored (showNumber : ℚ → String) (corpus : List Evidence) (scale : CostScale)
    (evaluation : Evaluation) : Prop :=
  ∃ genome ∈ enumerateGenomes, evaluate showNumber corpus scale genome = .ok evaluation

/-- The cache holds evaluations of the lattice under their keys. -/
def CacheSound (showNumber : ℚ → String) (corpus : List Evidence) (scale : CostScale)
    (cache : SortedMap String Evaluation) : Prop :=
  ∀ key evaluation, cache.find key = some evaluation → ∃ genome ∈ enumerateGenomes,
    genomeKey showNumber genome = key ∧ evaluate showNumber corpus scale genome = .ok evaluation

/-- The cache holds no more entries than there are policies. -/
theorem CacheSound.size_le {cache : SortedMap String Evaluation}
    (h : CacheSound showNumber corpus scale cache) : cache.size ≤ enumerateGenomes.length := by
  rw [← List.length_map (genomeKey showNumber)]
  refine SortedMap.size_le_length fun key hkey => ?_
  obtain ⟨evaluation, hfind⟩ := Option.isSome_iff_exists.mp hkey
  obtain ⟨genome, hgenome, rfl, -⟩ := h key evaluation hfind
  exact List.mem_map_of_mem hgenome

/-- The scorer that keeps nothing. -/
def scoreAfresh (showNumber : ℚ → String) (corpus : List Evidence) (scale : CostScale) :
    Scorer Unit := fun _ genome =>
  (evaluate showNumber corpus scale genome).map fun evaluation => (evaluation, ())

/-- One evaluation, of the lattice, and a sound cache. -/
def SameScore (showNumber : ℚ → String) (corpus : List Evidence) (scale : CostScale)
    (scored : Evaluation × SortedMap String Evaluation) (afresh : Evaluation × Unit) : Prop :=
  scored.1 = afresh.1 ∧ Scored showNumber corpus scale scored.1 ∧
    CacheSound showNumber corpus scale scored.2

/-- Scoring with the cache agrees with scoring afresh. -/
theorem score_of_agrees (hshow : ShowsAlphas showNumber) {cache : SortedMap String Evaluation}
    (hcache : CacheSound showNumber corpus scale cache) {genome : Genome}
    (hgenome : genome ∈ enumerateGenomes) :
    Agree (SameScore showNumber corpus scale) (scoreOf showNumber corpus scale cache genome)
      (scoreAfresh showNumber corpus scale () genome) := by
  unfold scoreOf scoreAfresh
  cases hfind : cache.find (genomeKey showNumber genome) with
  | some found =>
      obtain ⟨other, hother, hkey, hevaluate⟩ := hcache _ _ hfind
      rw [genome_key_inj hshow hother hgenome hkey] at hevaluate
      rw [hevaluate]
      exact .ok ⟨rfl, ⟨genome, hgenome, hevaluate⟩, hcache⟩
  | none =>
      cases hevaluate : evaluate showNumber corpus scale genome with
      | error error => exact .error error
      | ok evaluation =>
          refine .ok ⟨rfl, ⟨genome, hgenome, hevaluate⟩, fun key found hfound => ?_⟩
          rcases SortedMap.find_insert_eq_some_iff.mp hfound with ⟨rfl, rfl⟩ | ⟨-, hold⟩
          · exact ⟨genome, hgenome, rfl, hevaluate⟩
          · exact hcache key found hold

/-! ## The loops -/

/-- The search without its cache. -/
def Search.forget {μ : Type} (search : Search σ μ) : Search σ Unit :=
  { search with cache := () }

/-- What a search with a cache keeps. -/
structure Tracks (showNumber : ℚ → String) (corpus : List Evidence) (scale : CostScale)
    (search : Search σ (SortedMap String Evaluation)) (afresh : Search σ Unit) : Prop where
  forget : search.forget = afresh
  cache : CacheSound showNumber corpus scale search.cache
  incumbent : Scored showNumber corpus scale search.incumbent

/-- An evaluation is about the policy that was evaluated. -/
theorem genome_of_evaluate {genome : Genome} {evaluation : Evaluation}
    (h : evaluate showNumber corpus scale genome = .ok evaluation) :
    evaluation.genome = genome := by
  obtain ⟨_, _, -, -, hgenome, -⟩ := evaluate_eq_ok h
  exact hgenome

/-- What is scored in a search is enumerated. -/
theorem genome_mem_of_scored {evaluation : Evaluation}
    (h : Scored showNumber corpus scale evaluation) : evaluation.genome ∈ enumerateGenomes := by
  obtain ⟨genome, hgenome, hevaluate⟩ := h
  rw [genome_of_evaluate hevaluate]
  exact hgenome

/-- A climb keeps the two searches in step. -/
theorem climb_tracks {search : Search σ (SortedMap String Evaluation)} {afresh : Search σ Unit}
    (h : Tracks showNumber corpus scale search afresh) (generation : Nat)
    (proposal : σ × Genome) {scored : Evaluation × SortedMap String Evaluation}
    {other : Evaluation × Unit} (hscored : SameScore showNumber corpus scale scored other) :
    Tracks showNumber corpus scale (climb showNumber corpus search generation proposal scored)
      (climb showNumber corpus afresh generation proposal other) := by
  obtain ⟨rfl, hcache, hincumbent⟩ := h
  obtain ⟨evaluation, cache⟩ := scored
  obtain ⟨evaluation', _⟩ := other
  obtain ⟨rfl, hevaluation, hsound⟩ := hscored
  refine ⟨rfl, hsound, ?_⟩
  unfold climb
  dsimp only
  split
  · exact hevaluation
  · exact hincumbent

/-- A generation keeps the two searches in step. -/
theorem generation_step_agrees (hshow : ShowsAlphas showNumber) (restartEvery : Nat)
    {search : Search σ (SortedMap String Evaluation)} {afresh : Search σ Unit} (generation : Nat)
    (h : Tracks showNumber corpus scale search afresh) :
    Agree (Tracks showNumber corpus scale)
      (generationStep showNumber rng corpus (scoreOf showNumber corpus scale) restartEvery search
        generation)
      (generationStep showNumber rng corpus (scoreAfresh showNumber corpus scale) restartEvery
        afresh generation) := by
  have hforget := h.forget
  subst hforget
  have hproposal : (mutate rng search.incumbent.genome search.state).2 ∈ enumerateGenomes :=
    mutate_mem (genome_mem_of_scored h.incumbent) search.state
  refine ((score_of_agrees hshow h.cache hproposal).map
    fun _ _ hscored => climb_tracks h generation _ hscored).bind fun next other hnext => ?_
  have hforget := hnext.forget
  subst hforget
  by_cases hrestart : generation % restartEvery = 0
  · rw [if_pos hrestart, if_pos hrestart]
    refine (score_of_agrees hshow hnext.cache (restart_mem next.state)).map
      fun scored found hsame => ?_
    obtain ⟨evaluation, cache⟩ := scored
    obtain ⟨evaluation', _⟩ := found
    obtain ⟨rfl, hevaluation, hsound⟩ := hsame
    exact ⟨rfl, hsound, hevaluation⟩
  · rw [if_neg hrestart, if_neg hrestart]
    exact .ok hnext

/-- The search with the cache agrees with the one without. -/
theorem run_evolve_agrees (hshow : ShowsAlphas showNumber) (rng : Rng σ) (corpus : List Evidence)
    (scale : CostScale) (seed : σ) (generations restartEvery : Nat) :
    Agree (Tracks showNumber corpus scale)
      (runEvolve showNumber rng corpus scale seed generations restartEvery)
      (searchWith showNumber rng corpus (scoreAfresh showNumber corpus scale) () seed generations
        restartEvery) := by
  have hempty : CacheSound showNumber corpus scale .empty := fun key evaluation h => by cases h
  refine (score_of_agrees hshow hempty root_policy_mem).bind fun root other hroot => ?_
  obtain ⟨evaluation, cache⟩ := root
  obtain ⟨evaluation', _⟩ := other
  obtain ⟨rfl, hevaluation, hsound⟩ := hroot
  exact Agree.foldlM (fun search afresh generation h =>
    generation_step_agrees hshow restartEvery generation h) _ ⟨rfl, hsound, hevaluation⟩

/-- There are 432 policies. -/
theorem enumerate_length : enumerateGenomes.length = 432 := by
  decide +kernel

/-- The search with the cache is the search that evaluates every proposal afresh, errors included,
and evaluates each genome of the lattice at most once. -/
theorem cache_transparent (showNumber : ℚ → String) (hshow : ShowsAlphas showNumber) (rng : Rng σ)
    (corpus : List Evidence) (scale : CostScale) (seed : σ) (generations restartEvery : Nat) :
    (runEvolve showNumber rng corpus scale seed generations restartEvery).map Search.forget =
        searchWith showNumber rng corpus (scoreAfresh showNumber corpus scale) () seed generations
          restartEvery ∧
      ∀ search, runEvolve showNumber rng corpus scale seed generations restartEvery = .ok search →
        search.cache.size ≤ 432 := by
  have hagree := run_evolve_agrees hshow rng corpus scale seed generations restartEvery
  refine ⟨(hagree.mono fun _ _ h => h.forget).map_eq, fun search hsearch => ?_⟩
  rw [hsearch] at hagree
  obtain ⟨_, -, htracks⟩ := hagree.exists_of_ok
  exact enumerate_length ▸ htracks.cache.size_le

/-- The texts of the alphas in the source. -/
def alphaText (number : ℚ) : String :=
  if number = 5 / 100 then "0.05" else if number = 1 / 100 then "0.01" else "0.001"

/-- The texts of the levels differ. -/
theorem alpha_text_shows : ShowsAlphas alphaText where
  injective := by decide +kernel
  no_bar := by decide +kernel

/-- The theorem at one piece of evidence and 200 generations. -/
theorem cache_transparent_sample :
    (runEvolve alphaText makeRng [sampleEvidence] ⟨100, 2, 1, 1⟩ 0x1ea7be57 200 25).map
        Search.forget =
      searchWith alphaText makeRng [sampleEvidence]
        (scoreAfresh alphaText [sampleEvidence] ⟨100, 2, 1, 1⟩) () 0x1ea7be57 200 25 :=
  (cache_transparent alphaText alpha_text_shows makeRng [sampleEvidence] ⟨100, 2, 1, 1⟩ 0x1ea7be57
    200 25).1

end LatentMesh.Harness
