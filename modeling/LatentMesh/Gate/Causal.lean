import Mathlib.Algebra.BigOperators.Fin
import Mathlib.Algebra.Group.Action.Pi
import Mathlib.Algebra.Group.Action.Units
import Mathlib.Algebra.GroupWithZero.Units.Fintype
import Mathlib.Algebra.Module.NatInt
import LatentMesh.Lib.RandomizationTest

/-!
# Causal verification of an edge

`causal.rs` of `latentmesh-gate`: the sign-flip permutation test and the verification of an edge
against its five controls. Outcomes are exact numbers, and the answers of the random generator are
given by a stream of coins for each seed. The test is a randomization test whose group flips the
signs of the differences (`sign_flip_eq_p_value`), so an edge that is no better than one of its
controls is admitted with a probability of at most `alpha`, whatever the other controls are
(`false_admissions_le`).
-/

namespace LatentMesh.Gate

open LatentMesh.Lib

/-! ## The permutation test -/

/-- The mean of some values. -/
def mean (values : List ℚ) : ℚ := values.sum / values.length

/-- The differences of one resample, which draws a coin for each difference. -/
def permuted (differences : List ℚ) (coins : Nat → Bool) (resample : Nat) : List ℚ :=
  differences.zipIdx.map fun difference =>
    if coins (resample * differences.length + difference.2) then difference.1 else -difference.1

/-- `sign_flip_permutation_test`. The coins are the answers of `gen_bool(0.5)`. -/
def signFlipPermutationTest (differences : List ℚ) (resamples : Nat) (coins : Nat → Bool) : ℚ :=
  if differences.isEmpty then 1
  else
    let observed := mean differences
    let atLeastAsExtreme :=
      (List.range resamples).countP fun resample =>
        decide (observed ≤ mean (permuted differences coins resample))
    (atLeastAsExtreme + 1) / (resamples + 1)

/-! ## Edges -/

/-- The values with and without an edge, and those of the controls. -/
structure EdgeTrial where
  real : List ℚ
  zero : List ℚ
  random : List ℚ
  mismatched : List ℚ
  selfGenerated : List ℚ
  textEquivalent : List ℚ

/-- The controls with their names. -/
def EdgeTrial.controls (self : EdgeTrial) : List (String × List ℚ) :=
  [("zero", self.zero), ("random", self.random), ("mismatched", self.mismatched),
    ("self_generated", self.selfGenerated), ("text_equivalent", self.textEquivalent)]

/-- What is said of an edge. -/
inductive EdgeVerdict where
  | admitted (deltaV worstPValue : ℚ)
  | reject (reason : String)
  deriving DecidableEq

/-- How numbers are written in a reason. -/
structure NumberText where
  /-- `{:.4}`. -/
  fixed4 : ℚ → String
  /-- `{}`. -/
  display : ℚ → String

/-- The differences of an edge to one of its controls. -/
def EdgeTrial.differences (self : EdgeTrial) (control : List ℚ) : List ℚ :=
  self.real.zipWith (· - ·) control

/-- The name and the p-value of a control, which has a seed of its own. -/
def EdgeTrial.pValueOf (self : EdgeTrial) (coins : UInt64 → Nat → Bool) (resamples : Nat)
    (seed : UInt64) (control : (String × List ℚ) × Nat) : String × ℚ :=
  (control.1.1, signFlipPermutationTest (self.differences control.1.2) resamples
    (coins (seed + (UInt64.ofNat control.2 + 1))))

/-- `if p > worst_p`. -/
def worse (worst test : String × ℚ) : String × ℚ := if worst.2 < test.2 then test else worst

/-- The loop over the controls of `verify_edge`, which keeps the largest p-value. -/
def worstOf (tests : List (String × ℚ)) : String × ℚ := tests.foldl worse ("", 0)

/-- The mean difference that the edge makes. -/
def EdgeTrial.deltaV (self : EdgeTrial) : ℚ :=
  mean self.real - mean (self.controls.map Prod.snd).flatten

/-- `verify_edge`. -/
def verifyEdge (text : NumberText) (coins : UInt64 → Nat → Bool) (trial : EdgeTrial) (alpha : ℚ)
    (resamples : Nat) (seed : UInt64) : EdgeVerdict :=
  let n := trial.real.length
  match trial.controls.find? fun control => control.2.length ≠ n with
  | some (name, control) =>
      .reject ("control `" ++ name ++ "` has " ++ toString control.length ++
        " trials, expected " ++ toString n)
  | none =>
      if n = 0 then .reject "no trials"
      else
        let deltaV := trial.deltaV
        let (worstName, worstP) :=
          worstOf (trial.controls.zipIdx.map (trial.pValueOf coins resamples seed))
        if 0 < deltaV ∧ worstP < alpha then .admitted deltaV worstP
        else
          .reject ("delta_v=" ++ text.fixed4 deltaV ++ ", worst control `" ++ worstName ++
            "` p=" ++ text.fixed4 worstP ++ " (need > 0 and p < " ++ text.display alpha ++
            ")")

/-! ## The test as a randomization test -/

section Signs

variable {n resamples : ℕ}

/-- The coins of some sign vectors, one after the other. A coin that comes up keeps the sign. -/
def coinsOf (signs : Fin resamples → Fin n → ℤˣ) (k : Nat) : Bool :=
  if h : 0 < n ∧ k / n < resamples then
    decide (signs ⟨k / n, h.2⟩ ⟨k % n, Nat.mod_lt k h.1⟩ = 1)
  else true

/-- A resample draws the signs of the differences. -/
theorem permuted_coins_of (differences : Fin n → ℚ) (signs : Fin resamples → Fin n → ℤˣ)
    (resample : Fin resamples) :
    permuted (List.ofFn differences) (coinsOf signs) resample =
      List.ofFn (signs resample • differences) := by
  refine List.ext_getElem (by simp [permuted]) fun i hi hi' => ?_
  have hlt : i < n := by simpa using hi'
  have hpos : 0 < n := by omega
  have hdiv : (resample * n + i) / n = resample := by
    rw [Nat.mul_comm, Nat.mul_add_div hpos, Nat.div_eq_of_lt hlt, Nat.add_zero]
  have hmod : (resample * n + i) % n = i := by
    rw [Nat.mul_comm, Nat.mul_add_mod, Nat.mod_eq_of_lt hlt]
  have hcoin : coinsOf signs (resample * n + i) = decide (signs resample ⟨i, hlt⟩ = 1) := by
    rw [coinsOf, dif_pos ⟨hpos, hdiv.trans_lt resample.isLt⟩]
    simp only [hdiv, hmod]
  simp only [permuted, List.getElem_map, List.getElem_zipIdx, List.length_ofFn, Nat.zero_add,
    List.getElem_ofFn, hcoin, decide_eq_true_eq]
  rcases Int.units_eq_one_or (signs resample ⟨i, hlt⟩) with hone | hminus
  · rw [if_pos hone]
    simp [hone]
  · rw [if_neg (by rw [hminus]; decide)]
    simp [hminus, Units.smul_def]

/-- A count over a range is the size of a set. -/
theorem count_range_eq_card (p : Nat → Bool) (count : Nat) :
    (List.range count).countP p =
      (Finset.univ.filter fun i : Fin count => p i = true).card := by
  rw [← List.map_coe_finRange_eq_range, List.countP_map, Finset.card_def, Finset.filter_val,
    Fin.univ_def, Multiset.filter_coe, Multiset.coe_card, List.countP_eq_length_filter]
  congr 2
  funext i
  simp

/-- The sign-flip test is the randomization test of the mean under changes of sign. -/
theorem sign_flip_eq_p_value (hn : 0 < n) (differences : Fin n → ℚ)
    (signs : Fin resamples → Fin n → ℤˣ) :
    signFlipPermutationTest (List.ofFn differences) resamples (coinsOf signs) =
      pValue (fun data : Fin n → ℚ => mean (List.ofFn data)) differences signs := by
  have hnonempty : (List.ofFn differences).isEmpty = false := by
    simpa [List.isEmpty_iff, List.ofFn_eq_nil_iff] using Nat.ne_of_gt hn
  rw [signFlipPermutationTest, hnonempty, if_neg Bool.false_ne_true, pValue, extremeDraws]
  dsimp only
  rw [count_range_eq_card]
  simp only [permuted_coins_of, decide_eq_true_eq]

end Signs

/-! ## Admission -/

/-- The worse of two tests is at least each. -/
theorem le_worse (worst test : String × ℚ) :
    worst.2 ≤ (worse worst test).2 ∧ test.2 ≤ (worse worst test).2 := by
  unfold worse
  split_ifs with hlt
  · exact ⟨hlt.le, le_refl _⟩
  · exact ⟨le_refl _, not_lt.mp hlt⟩

/-- The worst test is at least the first. -/
theorem le_foldl_worse (tests : List (String × ℚ)) (worst : String × ℚ) :
    worst.2 ≤ (tests.foldl worse worst).2 := by
  induction tests generalizing worst with
  | nil => exact le_refl _
  | cons test tests ih => exact (le_worse worst test).1.trans (ih _)

/-- No p-value is above the worst one. -/
theorem le_worst_of {tests : List (String × ℚ)} {test : String × ℚ} (h : test ∈ tests) :
    test.2 ≤ (worstOf tests).2 := by
  rw [worstOf]
  generalize ("", (0 : ℚ)) = worst
  induction tests generalizing worst with
  | nil => exact absurd h List.not_mem_nil
  | cons first tests ih =>
      rcases List.mem_cons.mp h with rfl | hmem
      · exact (le_worse worst test).2.trans (le_foldl_worse tests _)
      · exact ih hmem _

/-- A verdict admits the edge. -/
def EdgeVerdict.isAdmit : EdgeVerdict → Bool
  | .admitted _ _ => true
  | .reject _ => false

/-- An edge is admitted when its trials are paired, its value is above that of the controls, and
every control alone is significant. -/
theorem verify_edge_admit {text : NumberText} {coins : UInt64 → Nat → Bool} {trial : EdgeTrial}
    {alpha : ℚ} {resamples : Nat} {seed : UInt64}
    (h : (verifyEdge text coins trial alpha resamples seed).isAdmit = true) :
    0 < trial.real.length ∧ 0 < trial.deltaV ∧
      ∀ control ∈ trial.controls.zipIdx, control.1.2.length = trial.real.length ∧
        (trial.pValueOf coins resamples seed control).2 < alpha := by
  unfold verifyEdge at h
  dsimp only at h
  cases hfind : trial.controls.find? fun control => control.2.length ≠ trial.real.length with
  | some control =>
      rw [hfind] at h
      cases h
  | none =>
      rw [hfind] at h
      dsimp only at h
      split at h
      · cases h
      · rename_i hn
        split at h
        · rename_i hadmit
          refine ⟨Nat.pos_of_ne_zero hn, hadmit.1, fun control hcontrol => ⟨?_, ?_⟩⟩
          · have hmem : control.1 ∈ trial.controls := List.fst_mem_of_mem_zipIdx hcontrol
            simpa using List.find?_eq_none.mp hfind control.1 hmem
          · exact lt_of_le_of_lt (le_worst_of (List.mem_map_of_mem hcontrol)) hadmit.2
        · cases h

/-- An edge that is no better than one of its controls is admitted with a probability of at most
`alpha`: when the signs of the differences to that control and the coins of its test are uniform,
at most a share `alpha` of all outcomes is admitted, whatever the other outcomes of the trials and
the other coins are. -/
theorem false_admissions_le {n resamples : ℕ} (text : NumberText) {alpha : ℚ} (halpha : 0 ≤ alpha)
    (seed : UInt64) (k : ℕ) (differences : Fin n → ℚ) (trial : (Fin n → ℤˣ) → EdgeTrial)
    (coins : (Fin n → ℤˣ) × (Fin resamples → Fin n → ℤˣ) → UInt64 → Nat → Bool)
    (htrial : ∀ signs, ∃ control, (trial signs).controls[k]? = some control ∧
      (trial signs).differences control.2 = List.ofFn (signs • differences))
    (hcoins : ∀ outcome, coins outcome (seed + (UInt64.ofNat k + 1)) = coinsOf outcome.2) :
    ((Finset.univ.filter fun outcome : (Fin n → ℤˣ) × (Fin resamples → Fin n → ℤˣ) =>
        (verifyEdge text (coins outcome) (trial outcome.1) alpha resamples seed).isAdmit).card :
      ℚ) ≤
      alpha * Fintype.card ((Fin n → ℤˣ) × (Fin resamples → Fin n → ℤˣ)) := by
  refine le_trans ?_ (card_p_value_le resamples
    (fun data : Fin n → ℚ => mean (List.ofFn data)) differences halpha)
  refine Nat.cast_le.mpr (Finset.card_le_card fun outcome houtcome => ?_)
  obtain ⟨hpos, -, hcontrols⟩ := verify_edge_admit (Finset.mem_filter.mp houtcome).2
  obtain ⟨control, hcontrol, hdifferences⟩ := htrial outcome.1
  obtain ⟨hlength, hp⟩ := hcontrols (control, k) (List.mk_mem_zipIdx_iff_getElem?.mpr hcontrol)
  have hn : 0 < n := by
    have hsize := congrArg List.length hdifferences
    rw [EdgeTrial.differences, List.length_zipWith, List.length_ofFn] at hsize
    dsimp only at hlength
    omega
  refine Finset.mem_filter.mpr ⟨Finset.mem_univ _, ?_⟩
  rw [EdgeTrial.pValueOf, hcoins, hdifferences, sign_flip_eq_p_value hn] at hp
  exact hp.le

/-- An edge with one trial, whose real value has the sign that is drawn and whose controls are 0. -/
def oneTrial (signs : Fin 1 → ℤˣ) : EdgeTrial :=
  ⟨List.ofFn (signs • fun _ : Fin 1 => (1 : ℚ)), [0], [0], [0], [0], [0]⟩

/-- The theorem at one pair and three resamples. -/
theorem false_admissions_le_one_trial :
    ((Finset.univ.filter fun outcome : (Fin 1 → ℤˣ) × (Fin 3 → Fin 1 → ℤˣ) =>
        (verifyEdge ⟨fun _ => "", fun _ => ""⟩ (fun _ => coinsOf outcome.2) (oneTrial outcome.1)
          (1 / 2) 3 0).isAdmit).card : ℚ) ≤
      1 / 2 * Fintype.card ((Fin 1 → ℤˣ) × (Fin 3 → Fin 1 → ℤˣ)) :=
  false_admissions_le ⟨fun _ => "", fun _ => ""⟩ (by norm_num) 0 0 (fun _ => 1) oneTrial
    (fun outcome _ => coinsOf outcome.2)
    (fun signs => ⟨("zero", [0]), rfl, by simp [EdgeTrial.differences, oneTrial]⟩)
    (fun _ => rfl)

end LatentMesh.Gate
