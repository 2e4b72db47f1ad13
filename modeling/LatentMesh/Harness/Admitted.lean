import Mathlib.Algebra.Order.BigOperators.Group.List
import Mathlib.Data.List.Forall2
import LatentMesh.Harness.Genome
import LatentMesh.Lib.Keyed
import LatentMesh.Lib.Traverse

/-!
# What a policy routes to

`evaluate` routes only to a channel that the policy has admitted: the gain is positive against every
control that the policy requires, under the causal gate every one of them has enough wealth, and the
fitness is a positive number, whatever weights the policy routes with (`routes_only_admitted`).
-/

namespace LatentMesh.Harness

open LatentMesh.Reasoning (CostScale CostWeights GainMeasurement)
open LatentMesh.Lib

/-! ## Scores under other weights -/

/-- All weights count. -/
def PositiveWeights (weights : CostWeights) : Prop :=
  ∀ resource : Resource, 0 < resource.weight weights

/-- Terms of one cost under two weight vectors that count all resources. -/
structure SameTerm (first second : Term) : Prop where
  normalised : first.normalised = second.normalised
  nonneg : 0 ≤ first.normalised
  first_pos : 0 < first.weight
  second_pos : 0 < second.weight

variable {scale : CostScale} {weights other : CostWeights} {cost : Cost} {deltaV score : ℚ}

/-- The same resources are present under other weights. -/
theorem present_terms_same (hweights : PositiveWeights weights) (hother : PositiveWeights other)
    {resources : List Resource} {present presentOther terms : List Term}
    (hpresent : List.Forall₂ SameTerm present presentOther)
    (h : presentTerms cost scale weights resources present = .ok terms) :
    ∃ termsOther, presentTerms cost scale other resources presentOther = .ok termsOther ∧
      List.Forall₂ SameTerm terms termsOther := by
  induction resources generalizing present presentOther with
  | nil =>
      cases h
      exact ⟨presentOther, rfl, hpresent⟩
  | cons resource resources ih =>
      unfold presentTerms at h ⊢
      cases hraw : cost resource with
      | none =>
          rw [hraw] at h
          exact ih hpresent h
      | some raw =>
          rw [hraw] at h
          dsimp only at h ⊢
          by_cases hnegative : raw < 0
          · rw [if_pos hnegative] at h
            cases h
          · by_cases hscale : resource.scale scale ≤ 0
            · rw [if_neg hnegative, if_pos hscale] at h
              cases h
            · rw [if_neg hnegative, if_neg hscale] at h ⊢
              have hterm : SameTerm ⟨raw / resource.scale scale, resource.weight weights⟩
                  ⟨raw / resource.scale scale, resource.weight other⟩ :=
                ⟨rfl, div_nonneg (not_lt.mp hnegative) (le_of_lt (not_le.mp hscale)),
                  hweights resource, hother resource⟩
              exact ih (List.rel_append hpresent (.cons hterm .nil)) h

/-- The loops that add up. -/
theorem fold_add_eq_sum {α : Type} (f : α → ℚ) (items : List α) :
    items.foldl (fun total item => total + f item) 0 = (items.map f).sum := by
  rw [List.sum_eq_foldl, List.foldl_map]

/-- A sum of nonnegative terms is positive where one of them is. -/
theorem sum_pos_iff {terms : List ℚ} (h : ∀ term ∈ terms, 0 ≤ term) :
    0 < terms.sum ↔ ∃ term ∈ terms, 0 < term := by
  constructor
  · intro hpos
    by_contra hnone
    have hle : ∀ term ∈ terms, term ≤ 0 := fun term hmem =>
      not_lt.mp fun hterm => hnone ⟨term, hmem, hterm⟩
    have hsum := List.sum_le_card_nsmul terms 0 hle
    rw [nsmul_zero] at hsum
    exact absurd hsum (not_le.mpr hpos)
  · rintro ⟨term, hmem, hpos⟩
    exact lt_of_lt_of_le hpos (List.single_le_sum h term hmem)

/-- The sum of the weights, and the denominator of the score. -/
def totalWeight (present : List Term) : ℚ := (present.map Term.weight).sum

/-- What the utility is divided by. -/
def denominator (present : List Term) : ℚ :=
  (present.map fun term => term.weight / totalWeight present * term.normalised).sum

/-- The utility density is the gain over the weighted costs, where there are any. -/
theorem utility_density_eq (deltaV : ℚ) (cost : Cost) (scale : CostScale) (weights : CostWeights) :
    utilityDensity deltaV cost scale weights =
      (presentTerms cost scale weights Resource.all []).bind fun present =>
        if present.length = 0 then .error .noMeasuredResource
        else if ¬ 0 < totalWeight present then .error .invalidWeights
        else if ¬ 0 < denominator present then .error .zeroCost
        else .ok (deltaV / denominator present) := by
  unfold utilityDensity totalWeight denominator
  simp only [fold_add_eq_sum]
  rfl

/-- The terms of the denominator are positive where the normalised costs are. -/
theorem denominator_pos_iff {terms : List Term} (htotal : 0 < totalWeight terms)
    (hterms : ∀ term ∈ terms, 0 ≤ term.normalised ∧ 0 < term.weight) :
    0 < denominator terms ↔ ∃ term ∈ terms, 0 < term.normalised := by
  have hfactor : ∀ term ∈ terms, 0 < term.weight / totalWeight terms := fun term hmem =>
    div_pos (hterms term hmem).2 htotal
  rw [denominator, sum_pos_iff]
  · constructor
    · rintro ⟨value, hvalue, hpos⟩
      obtain ⟨term, hmem, rfl⟩ := List.mem_map.mp hvalue
      exact ⟨term, hmem, (mul_pos_iff_of_pos_left (hfactor term hmem)).mp hpos⟩
    · rintro ⟨term, hmem, hpos⟩
      exact ⟨_, List.mem_map_of_mem hmem, mul_pos (hfactor term hmem) hpos⟩
  · intro value hvalue
    obtain ⟨term, hmem, rfl⟩ := List.mem_map.mp hvalue
    exact mul_nonneg (le_of_lt (hfactor term hmem)) (hterms term hmem).1

/-- The facts about the terms of both sides. -/
theorem same_terms_cases {terms others : List Term} (h : List.Forall₂ SameTerm terms others) :
    (∀ term ∈ terms, 0 ≤ term.normalised ∧ 0 < term.weight) ∧
      (∀ term ∈ others, 0 ≤ term.normalised ∧ 0 < term.weight) ∧
      ((∃ term ∈ terms, 0 < term.normalised) ↔ ∃ term ∈ others, 0 < term.normalised) ∧
      (0 < totalWeight terms → 0 < totalWeight others) := by
  induction h with
  | nil => simp [totalWeight]
  | @cons first second terms others hfirst _ ih =>
      obtain ⟨hterms, hothers, hsome, -⟩ := ih
      refine ⟨List.forall_mem_cons.mpr ⟨⟨hfirst.nonneg, hfirst.first_pos⟩, hterms⟩,
        List.forall_mem_cons.mpr ⟨⟨hfirst.normalised ▸ hfirst.nonneg, hfirst.second_pos⟩, hothers⟩,
        ?_, fun _ => ?_⟩
      · simp only [List.exists_mem_cons_iff, hfirst.normalised, hsome]
      · rw [totalWeight, List.map_cons, List.sum_cons]
        refine add_pos_of_pos_of_nonneg hfirst.second_pos (List.sum_nonneg fun weight hweight => ?_)
        obtain ⟨term, hmem, rfl⟩ := List.mem_map.mp hweight
        exact le_of_lt (hothers term hmem).2

/-- A positive score under some weights is a positive gain, and a positive score under others. -/
theorem utility_density_pos (hweights : PositiveWeights weights) (hother : PositiveWeights other)
    (h : utilityDensity deltaV cost scale weights = .ok score) (hscore : 0 < score) :
    0 < deltaV ∧ ∃ scoreOther, utilityDensity deltaV cost scale other = .ok scoreOther ∧
      0 < scoreOther := by
  rw [utility_density_eq] at h ⊢
  obtain ⟨terms, hterms, hrest⟩ := bind_eq_ok_iff.mp h
  obtain ⟨hlength, hrest⟩ := guard_eq_ok_iff.mp hrest
  obtain ⟨htotal, hrest⟩ := guard_eq_ok_iff.mp hrest
  obtain ⟨hpos, hrest⟩ := guard_eq_ok_iff.mp hrest
  cases hrest
  rw [not_not] at htotal hpos
  have hgain : 0 < deltaV := (div_pos_iff_of_pos_right hpos).mp hscore
  obtain ⟨others, hothers, hsame⟩ := present_terms_same hweights hother .nil hterms
  obtain ⟨hboth, hbothOther, hsome, hsum⟩ := same_terms_cases hsame
  have hposOther : 0 < denominator others :=
    (denominator_pos_iff (hsum htotal) hbothOther).mpr
      (hsome.mp ((denominator_pos_iff htotal hboth).mp hpos))
  refine ⟨hgain, deltaV / denominator others, ?_, div_pos hgain hposOther⟩
  rw [hothers]
  refine guard_eq_ok_iff.mpr ⟨?_, guard_eq_ok_iff.mpr ⟨not_not.mpr (hsum htotal),
    guard_eq_ok_iff.mpr ⟨not_not.mpr hposOther, rfl⟩⟩⟩
  rw [← hsame.length_eq]
  exact hlength

/-! ## What the router selects -/

/-- The router marks every candidate, and selects silence or a candidate with a positive score. -/
theorem route_selects (candidates : List Candidate) (scale : CostScale) (weights : CostWeights) :
    (route candidates scale weights).considered = candidates.map (fun candidate =>
        ⟨candidate.id, candidate.mode, outcome scale weights candidate⟩) ∧
      (((route candidates scale weights).selected = modeNone ∧
          (route candidates scale weights).selectedId = none) ∨
        ∃ candidate ∈ candidates, ∃ score, 0 < score ∧
          outcome scale weights candidate = .scored score ∧
          (route candidates scale weights).selected = candidate.mode ∧
          (route candidates scale weights).selectedId = some candidate.id) := by
  have heq : route candidates scale weights = _ := route_eq _ candidates
  rw [heq]
  dsimp only
  refine ⟨List.nil_append _, ?_⟩
  obtain ⟨hpicks, hselected⟩ := picks_of_scan
    (fun candidate => (outcome scale weights candidate).score?)
    (fun candidate : Candidate => (candidate.mode, some candidate.id)) (modeNone, none) candidates
    rfl
  rw [hselected]
  cases hwinner : (firstBest 0 (candidates.map fun candidate =>
      (outcome scale weights candidate).score?)).map Prod.fst with
  | none => exact Or.inl ⟨rfl, rfl⟩
  | some index =>
      rw [hwinner] at hpicks
      have hentry := hpicks.entry
      rw [List.getElem?_map, Option.map_eq_some_iff] at hentry
      obtain ⟨candidate, hcandidate, hscored⟩ := hentry
      refine Or.inr ⟨candidate, List.mem_of_getElem? hcandidate, _, hpicks.above, ?_, ?_⟩
      · cases houtcome : outcome scale weights candidate with
        | unmeasured => rw [houtcome] at hscored; cases hscored
        | invalid error => rw [houtcome] at hscored; cases hscored
        | scored score =>
            rw [houtcome] at hscored
            exact congrArg Outcome.scored (Option.some.inj hscored)
      · simp [hcandidate]

/-! ## What the gate admits -/

/-- The evidence clears the bar of a policy with a gain: it beats every required control by the gain
at least, and under the causal gate each of them has the wealth that the policy asks for. -/
structure Cleared (evidence : Evidence) (genome : Genome) (deltaV : ℚ) : Prop where
  allowed : genome.admission ≠ .never
  controls : ∃ measurement, evidence.measurement = .ok measurement ∧
    ∀ name ∈ genome.controls, ∃ control, controlNamed measurement.controls name = some control ∧
      deltaV * measurement.n ≤ measurement.correct - control.correct ∧
      (genome.admission = .causalGate →
        genome.alpha ≠ 0 ∧ 1 / genome.alpha ≤ control.finalWealth)

/-- The threshold of the wealth is the reciprocal of a level that is not zero. -/
theorem wealth_threshold_eq_some_iff {alpha wealth : ℚ} :
    wealthThreshold alpha = some wealth ↔ alpha ≠ 0 ∧ wealth = 1 / alpha := by
  unfold wealthThreshold
  split
  · rename_i hzero
    exact ⟨fun h => (nomatch h), fun h => absurd hzero h.1⟩
  · rename_i halpha
    exact ⟨fun h => ⟨halpha, (Option.some.inj h).symm⟩, fun h => congrArg some h.2.symm⟩

/-- No control is better than the worst one. -/
theorem worst_of_spec (first : Control) (rest : List Control) :
    ∀ control ∈ first :: rest, control.correct ≤ (worstOf first rest).correct := by
  induction rest generalizing first with
  | nil =>
      intro control hcontrol
      rw [List.mem_singleton.mp hcontrol]
      rfl
  | cons next rest ih =>
      intro control hcontrol
      have hbest := ih (if first.correct < next.correct then next else first)
      have hstart := hbest _ List.mem_cons_self
      show control.correct ≤ (worstOf (if first.correct < next.correct then next else first)
        rest).correct
      have hfirst : first.correct ≤ (if first.correct < next.correct then next else first).correct ∧
          next.correct ≤ (if first.correct < next.correct then next else first).correct := by
        split
        · exact ⟨le_of_lt ‹_›, le_refl _⟩
        · exact ⟨le_refl _, not_lt.mp ‹_›⟩
      rcases List.mem_cons.mp hcontrol with rfl | hrest
      · exact le_trans hfirst.1 hstart
      · rcases List.mem_cons.mp hrest with rfl | hlater
        · exact le_trans hfirst.2 hstart
        · exact hbest control (List.mem_cons_of_mem _ hlater)

/-- The least wealth is at most that of every control. -/
theorem min_wealth_of_spec (first : Control) (rest : List Control) :
    ∀ control ∈ first :: rest, minWealthOf first rest ≤ control.finalWealth := by
  have hfold : ∀ (rest : List Control) (start : ℚ),
      rest.foldl (fun least control => min least control.finalWealth) start ≤ start ∧
        ∀ control ∈ rest, rest.foldl (fun least control => min least control.finalWealth) start ≤
          control.finalWealth := by
    intro rest
    induction rest with
    | nil => exact fun start => ⟨le_refl _, fun _ h => absurd h List.not_mem_nil⟩
    | cons next rest ih =>
        intro start
        obtain ⟨hstart, hrest⟩ := ih (min start next.finalWealth)
        rw [List.foldl_cons]
        refine ⟨le_trans hstart (min_le_left _ _), fun control hcontrol => ?_⟩
        rcases List.mem_cons.mp hcontrol with rfl | hlater
        · exact le_trans hstart (min_le_right _ _)
        · exact hrest control hlater
  intro control hcontrol
  obtain ⟨hstart, hrest⟩ := hfold rest first.finalWealth
  rcases List.mem_cons.mp hcontrol with rfl | hlater
  · exact hstart
  · exact hrest control hlater

variable {showNumber : ℚ → String} {evidence : Evidence} {genome : Genome} {admission : Admission}

/-- A positive gain is that of an admission, and the evidence clears the bar with it. -/
theorem cleared_of_admission (h : admitEvidence showNumber evidence genome = .ok admission)
    (hgain : admission.gain = .measured deltaV) (hpos : 0 < deltaV) :
    admission.status = .admitted ∧ admission.rawDelta = some deltaV ∧
      Cleared evidence genome deltaV := by
  unfold admitEvidence at h
  cases hmeasurement : evidence.measurement with
  | error reason =>
      rw [hmeasurement] at h
      cases h
      cases hgain
  | ok measurement =>
      rw [hmeasurement] at h
      dsimp only at h
      by_cases hnever : genome.admission = .never
      · rw [if_pos hnever] at h
        cases h
        cases hgain
        exact absurd hpos (lt_irrefl _)
      · rw [if_neg hnever] at h
        split at h
        · cases h
          cases hgain
        · rename_i hmissing
          split at h
          · cases h
          · rename_i first rest hrequired
            -- the required controls, by name
            have hnamed : ∀ name ∈ genome.controls, ∃ control,
                controlNamed measurement.controls name = some control ∧
                  control ∈ first :: rest := by
              intro name hname
              have hpresent : (controlNamed measurement.controls name).isNone ≠ true := fun hnone =>
                hmissing (List.length_pos_of_mem (List.mem_filter.mpr ⟨hname, hnone⟩))
              cases hfound : controlNamed measurement.controls name with
              | none => exact absurd (congrArg Option.isNone hfound) hpresent
              | some control =>
                  refine ⟨control, rfl, ?_⟩
                  rw [← hrequired]
                  exact List.mem_filterMap.mpr ⟨name, hname, hfound⟩
            have hbeaten : ∀ control ∈ first :: rest,
                (measurement.correct - (worstOf first rest).correct) / measurement.n *
                  measurement.n ≤ measurement.correct - control.correct := by
              intro control hcontrol
              rw [div_mul_cancel₀ _ (ne_of_gt measurement.ran)]
              exact sub_le_sub_left (worst_of_spec first rest control hcontrol) _
            split at h
            · rename_i halways
              cases h
              cases hgain
              refine ⟨rfl, rfl, hnever, measurement, hmeasurement, fun name hname => ?_⟩
              obtain ⟨control, hcontrol, hmem⟩ := hnamed name hname
              refine ⟨control, hcontrol, hbeaten control hmem, fun hgate => ?_⟩
              rw [halways] at hgate
              cases hgate
            · split at h
              · cases h
                cases hgain
                exact absurd hpos (lt_irrefl _)
              · rename_i hwealth
                cases h
                cases hgain
                refine ⟨rfl, rfl, hnever, measurement, hmeasurement, fun name hname => ?_⟩
                obtain ⟨control, hcontrol, hmem⟩ := hnamed name hname
                refine ⟨control, hcontrol, hbeaten control hmem, fun _ => ?_⟩
                obtain ⟨wealth, hthreshold, hreached⟩ := not_not.mp hwealth
                obtain ⟨halpha, rfl⟩ := wealth_threshold_eq_some_iff.mp hthreshold
                exact ⟨halpha,
                  le_trans hreached (min_wealth_of_spec first rest control hmem)⟩

/-! ## Evaluations -/

variable {corpus : List Evidence} {evaluation : Evaluation}

/-- The weights of the lattice count all resources. -/
theorem positive_weights_of_mem :
    ∀ entry ∈ costWeightSets, PositiveWeights entry.2 := by
  have hdecided : ∀ entry ∈ costWeightSets, 0 < entry.2.bandwidth ∧ 0 < entry.2.latency ∧
      0 < entry.2.energy ∧ 0 < entry.2.risk := by
    decide +kernel
  intro entry hentry resource
  obtain ⟨hbandwidth, hlatency, henergy, hrisk⟩ := hdecided entry hentry
  cases resource <;> assumption

/-- The frozen weights are positive. -/
theorem positive_frozen : PositiveWeights frozenScoringWeights :=
  positive_weights_of_mem ("equal", frozenScoringWeights) List.mem_cons_self

/-- What an evaluation is made of. -/
theorem evaluate_eq_ok (h : evaluate showNumber corpus scale genome = .ok evaluation) :
    ∃ candidates weights, candidatesFor showNumber corpus genome = .ok candidates ∧
      PositiveWeights weights ∧ evaluation.genome = genome ∧
      evaluation.selected =
        (route (candidates.map PolicyCandidate.candidate) scale weights).selected ∧
      evaluation.selectedId =
        (route (candidates.map PolicyCandidate.candidate) scale weights).selectedId ∧
      evaluation.fitness = fitnessOf
        (route (candidates.map PolicyCandidate.candidate) scale weights)
        (route (candidates.map PolicyCandidate.candidate) scale frozenScoringWeights) ∧
      evaluation.admissions = candidates.map fun candidate =>
        ⟨candidate.candidate.id, candidate.admission.status, candidate.admission.reason,
          candidate.admission.rawDelta, candidate.admission.worst.map Control.control⟩ := by
  obtain ⟨candidates, hcandidates, hrest⟩ := bind_eq_ok_iff.mp h
  obtain ⟨unmeasured, -, hrest⟩ := bind_eq_ok_iff.mp hrest
  obtain ⟨weights, hweights, hrest⟩ := bind_eq_ok_iff.mp hrest
  cases hrest
  refine ⟨candidates, weights, hcandidates, ?_, rfl, rfl, rfl, rfl, rfl⟩
  unfold weightsOf at hweights
  split at hweights
  · rename_i entry hentry
    cases hweights
    exact positive_weights_of_mem entry (List.mem_of_find?_eq_some hentry)
  · cases hweights

/-- A candidate is a piece of evidence of the channel, with its admission. -/
structure Candidacy (showNumber : ℚ → String) (genome : Genome) (evidence : Evidence)
    (candidate : PolicyCandidate) : Prop where
  decision : admitEvidence showNumber evidence genome = .ok candidate.admission
  id : candidate.candidate.id = evidence.id
  mode : candidate.candidate.mode = evidence.channel.name
  gain : candidate.candidate.gain = candidate.admission.gain

/-- The candidates of a policy stem from the evidence it takes, in order. -/
theorem candidates_for {candidates : List PolicyCandidate}
    (h : candidatesFor showNumber corpus genome = .ok candidates) :
    List.Forall₂ (Candidacy showNumber genome)
      (corpus.filter fun evidence => evidence.channel = genome.channel) candidates := by
  refine (map_m_eq_ok_iff.mp h).imp fun evidence candidate hcandidate => ?_
  obtain ⟨decision, hdecision, rfl⟩ := map_eq_ok_iff.mp hcandidate
  exact ⟨hdecision, rfl, rfl, rfl⟩

/-- The candidates have the ids of the evidence of the channel. -/
theorem candidate_ids {items : List Evidence} {candidates : List PolicyCandidate}
    (h : List.Forall₂ (Candidacy showNumber genome) items candidates) :
    (candidates.map fun candidate => candidate.candidate.id) = items.map Evidence.id := by
  induction h with
  | nil => rfl
  | cons hfirst _ ih => rw [List.map_cons, List.map_cons, hfirst.id, ih]

/-- Every candidate stems from some evidence. -/
theorem exists_of_candidate {items : List Evidence} {candidates : List PolicyCandidate}
    (h : List.Forall₂ (Candidacy showNumber genome) items candidates) {candidate : PolicyCandidate}
    (hmem : candidate ∈ candidates) :
    ∃ evidence ∈ items, Candidacy showNumber genome evidence candidate := by
  have hflip : List.Forall₂ (flip (Candidacy showNumber genome)) candidates items := h.flip
  exact exists_of_forall₂ hflip hmem

/-- The entry of an id, in a list whose ids are those of distinct items. -/
theorem find_by_id {α β : Type} {items : List α} {id : α → String}
    (hdistinct : (items.map id).Nodup) (idOf : β → String) {make : α → β}
    (hmake : ∀ item, idOf (make item) = id item) {item : α} (hitem : item ∈ items) :
    ((items.map make).find? fun entry => some (idOf entry) = some (id item)) =
      some (make item) := by
  have hkeys : Keyed.Distinct (fun entry => some (idOf entry)) (items.map make) := by
    show ((items.map make).map fun entry => some (idOf entry)).Nodup
    rw [List.map_map]
    have hcomp : (fun entry => some (idOf entry)) ∘ make = some ∘ id :=
      funext fun item => congrArg some (hmake item)
    rw [hcomp, ← List.map_map]
    exact hdistinct.map (Option.some_injective _)
  exact (Keyed.find_eq_some_iff hkeys).mpr
    ⟨List.mem_map_of_mem hitem, congrArg some (hmake item)⟩

/-- An evaluation selects silence with the fitness zero, or a piece of evidence that clears the bar
of its policy, with a positive fitness, and its own entry says that it was admitted. -/
theorem routes_only_admitted (showNumber : ℚ → String) (corpus : List Evidence)
    (hids : (corpus.map Evidence.id).Nodup) (scale : CostScale) (genome : Genome)
    (h : evaluate showNumber corpus scale genome = .ok evaluation) :
    (evaluation.selected = modeNone ∧ evaluation.fitness = some 0) ∨
      ∃ evidence ∈ corpus, ∃ deltaV fitness, 0 < deltaV ∧ 0 < fitness ∧
        Cleared evidence genome deltaV ∧ evidence.channel = genome.channel ∧
        evaluation.selected = genome.channel.name ∧ evaluation.selectedId = some evidence.id ∧
        evaluation.fitness = some fitness ∧
        ∃ entry, (evaluation.admissions.find? fun entry =>
            some entry.id = evaluation.selectedId) = some entry ∧
          entry.status = .admitted ∧ entry.rawDelta = some deltaV := by
  obtain ⟨candidates, weights, hcandidates, hweights, -, hselected, hid, hfitness, hadmissions⟩ :=
    evaluate_eq_ok h
  have hall := candidates_for hcandidates
  have hnodup : (candidates.map fun candidate => candidate.candidate.id).Nodup := by
    rw [candidate_ids hall]
    exact hids.sublist (List.filter_sublist.map _)
  obtain ⟨hconsidered, -⟩ :=
    route_selects (candidates.map PolicyCandidate.candidate) scale frozenScoringWeights
  obtain ⟨-, ⟨hsilent, hnone⟩ | ⟨chosen, hchosen, score, hpositive, hscored, hmode, hchosenId⟩⟩ :=
    route_selects (candidates.map PolicyCandidate.candidate) scale weights
  · -- nothing beats silence
    refine Or.inl ⟨hselected.trans hsilent, ?_⟩
    rw [hfitness, fitnessOf, hnone]
    cases (route _ scale frozenScoringWeights).considered.find? _ with
    | none => rfl
    | some entry => exact if_pos hsilent
  · obtain ⟨candidate, hcandidate, rfl⟩ := List.mem_map.mp hchosen
    obtain ⟨evidence, hevidence, hcandidacy⟩ := exists_of_candidate hall hcandidate
    obtain ⟨hcorpus, hchannel⟩ := List.mem_filter.mp hevidence
    have hchannel := of_decide_eq_true hchannel
    -- the score comes from a measured gain
    have hdensity : ∃ deltaV, candidate.candidate.gain = .measured deltaV ∧
        utilityDensity deltaV candidate.candidate.cost scale weights = .ok score := by
      unfold outcome at hscored
      cases hgain : candidate.candidate.gain with
      | unmeasured => rw [hgain] at hscored; cases hscored
      | measured deltaV =>
          rw [hgain] at hscored
          dsimp only at hscored
          cases hdensity : utilityDensity deltaV candidate.candidate.cost scale weights with
          | error error => rw [hdensity] at hscored; cases hscored
          | ok found =>
              rw [hdensity] at hscored
              cases hscored
              exact ⟨deltaV, rfl, hdensity⟩
    obtain ⟨deltaV, hgain, hdensity⟩ := hdensity
    obtain ⟨hdelta, fitness, hfrozen, hpos⟩ :=
      utility_density_pos hweights positive_frozen hdensity hpositive
    obtain ⟨hstatus, hraw, hcleared⟩ :=
      cleared_of_admission hcandidacy.decision (hcandidacy.gain.symm.trans hgain) hdelta
    have hfound : (route (candidates.map PolicyCandidate.candidate) scale
        frozenScoringWeights).considered.find? (fun entry =>
          some entry.id = some candidate.candidate.id) =
        some ⟨candidate.candidate.id, candidate.candidate.mode, .scored fitness⟩ := by
      rw [hconsidered, List.map_map]
      refine (find_by_id hnodup Considered.id (fun _ => rfl) hcandidate).trans ?_
      simp only [Function.comp, outcome, hgain, hfrozen]
    by_cases hsilence : genome.channel.name = modeNone
    · left
      have hnone : (route (candidates.map PolicyCandidate.candidate) scale weights).selected =
          modeNone := hmode.trans (hcandidacy.mode.trans ((congrArg _ hchannel).trans hsilence))
      refine ⟨hselected.trans hnone, ?_⟩
      rw [hfitness, fitnessOf, hchosenId, hfound]
      exact if_pos hnone
    · right
      have hname : (route (candidates.map PolicyCandidate.candidate) scale weights).selected =
          genome.channel.name := hmode.trans (hcandidacy.mode.trans (congrArg _ hchannel))
      refine ⟨evidence, hcorpus, deltaV, fitness, hdelta, hpos, hcleared, hchannel,
        hselected.trans hname, hid.trans (hchosenId.trans (congrArg some hcandidacy.id)), ?_, ?_⟩
      · rw [hfitness, fitnessOf, hchosenId, hfound]
        exact if_neg (hname ▸ hsilence)
      · rw [hid, hchosenId, hadmissions]
        exact ⟨_, find_by_id hnodup AdmissionEntry.id (fun _ => rfl) hcandidate, hstatus, hraw⟩

/-- A text channel that beats four controls. -/
def sampleEvidence : Evidence where
  id := "text/sample"
  channel := .text
  cost
    | .bytes => some 100
    | .latencySeconds => some 2
    | .energyJoules => none
    | .risk => some 0
  measurement := .ok
    { receipt := "sample.json"
      n := 500
      correct := 300
      controls := [⟨"zero", 200, 60⟩, ⟨"random", 210, 40⟩, ⟨"mismatched", 220, 30⟩,
        ⟨"self_generated", 205, 50⟩]
      ran := by norm_num }

/-- A text for two numbers. -/
def sampleShow (number : ℚ) : String := if number = 30 then "30" else "20"

/-- The theorem at the root policy and one piece of evidence. -/
theorem routes_only_admitted_root : ∃ evaluation deltaV,
    evaluate sampleShow [sampleEvidence] ⟨100, 2, 1, 1⟩ rootPolicy = .ok evaluation ∧
      evaluation.selected = "text" ∧ 0 < deltaV ∧ Cleared sampleEvidence rootPolicy deltaV := by
  have hselected : (evaluate sampleShow [sampleEvidence] ⟨100, 2, 1, 1⟩ rootPolicy).toOption.map
      Evaluation.selected = some "text" := by
    decide +kernel
  cases h : evaluate sampleShow [sampleEvidence] ⟨100, 2, 1, 1⟩ rootPolicy with
  | error error =>
      rw [h] at hselected
      cases hselected
  | ok evaluation =>
      rw [h] at hselected
      have htext := Option.some.inj hselected
      rcases routes_only_admitted sampleShow [sampleEvidence] (List.nodup_singleton _)
        ⟨100, 2, 1, 1⟩ rootPolicy h with
        ⟨hsilent, -⟩ | ⟨evidence, hmem, deltaV, -, hpos, -, hcleared, -⟩
      · exact absurd (htext.symm.trans hsilent) (by decide)
      · rw [List.mem_singleton.mp hmem] at hcleared
        exact ⟨evaluation, deltaV, rfl, htext, hpos, hcleared⟩

end LatentMesh.Harness
