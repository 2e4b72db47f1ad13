import Mathlib.Algebra.BigOperators.Fin
import Mathlib.Algebra.Group.Action.Defs
import Mathlib.Algebra.Order.BigOperators.Group.Finset
import Mathlib.Combinatorics.Enumerative.DoubleCounting
import Mathlib.Data.Fintype.BigOperators
import Mathlib.Data.Fintype.Pi
import Mathlib.Data.Rat.Floor

/-!
# Randomization tests

A finite group acts on the possible data, and the hypothesis of no effect says that the data are a
uniformly random image of something fixed. A test draws group elements, compares the statistic of
the data with those of the images that it draws, and counts the data themselves as one more draw.
Such a test is exact at any number of draws: among all the random outcomes, at most a share `α` has
a p-value of at most `α` (`card_p_value_le`). The reason is a count without probabilities: at most
`k` places of a family have a value that is reached by at most `k` places (`card_rank_le`).
-/

namespace LatentMesh.Lib

open Finset

/-! ## Ranks -/

section Rank

variable {ι β : Type*} [Fintype ι] [LinearOrder β]

/-- The number of places whose value is at least the value at `i`. -/
def rank (values : ι → β) (i : ι) : ℕ := #{j | values i ≤ values j}

/-- No more than `k` indices have a rank of at most `k`. -/
theorem card_rank_le (values : ι → β) (k : ℕ) : #{i | rank values i ≤ k} ≤ k := by
  rcases eq_empty_or_nonempty ({i | rank values i ≤ k} : Finset ι) with hempty | hnonempty
  · rw [hempty, card_empty]
    exact Nat.zero_le k
  · -- all such places reach the least of their values
    obtain ⟨least, hleast, hmin⟩ := exists_min_image _ values hnonempty
    calc #{i | rank values i ≤ k} ≤ rank values least := by
          refine card_le_card fun i hi => mem_filter.mpr ⟨mem_univ i, hmin i hi⟩
      _ ≤ k := (mem_filter.mp hleast).2

/-- Renaming the places renames the ranks. -/
theorem rank_comp [DecidableEq ι] (values : ι → β) (rename : Equiv.Perm ι) (i : ι) :
    rank (values ∘ rename) i = rank values (rename i) := by
  refine card_bij (fun j _ => rename j) ?_ (fun _ _ _ _ h => rename.injective h) ?_
  · intro j hj
    simpa using hj
  · intro j hj
    exact ⟨rename.symm j, by simpa using hj, by simp⟩

end Rank

/-! ## The test -/

section Test

variable {G X β : Type*} [Group G] [MulAction G X] [LinearOrder β] {draws : ℕ}

/-- The draws whose images are at least as extreme as the data. -/
def extremeDraws (statistic : X → β) (data : X) (drawn : Fin draws → G) : ℕ :=
  #{r | statistic data ≤ statistic (drawn r • data)}

/-- The p-value: the data are one more draw. -/
def pValue (statistic : X → β) (data : X) (drawn : Fin draws → G) : ℚ :=
  (extremeDraws statistic data drawn + 1) / (draws + 1)

/-- The data and the images that are drawn from them, as elements that act on one fixed thing. -/
def jointDraw (G : Type*) [Group G] (draws : ℕ) : G × (Fin draws → G) ≃ (Fin (draws + 1) → G) where
  toFun outcome := Fin.cons outcome.1 fun r => outcome.2 r * outcome.1
  invFun joint := (joint 0, fun r => joint r.succ * (joint 0)⁻¹)
  left_inv outcome := by simp
  right_inv joint := by
    funext i
    cases i using Fin.cases with
    | zero => rfl
    | succ r => simp

/-- The draws at least as extreme as the observed one, with it, count its rank among all draws. -/
theorem extreme_draws_succ (statistic : X → β) (fixed : X) (outcome : G × (Fin draws → G)) :
    extremeDraws statistic (outcome.1 • fixed) outcome.2 + 1 =
      rank (fun i => statistic (jointDraw G draws outcome i • fixed)) 0 := by
  rw [rank, extremeDraws, Fin.univ_succ, filter_cons_of_pos, card_cons, filter_map, card_map]
  · congr 2
    ext r
    simp [jointDraw, mul_smul]
  · exact le_refl _

variable [Fintype G]

/-- Every place of the joint draw has a rank of at most `k` equally often. -/
theorem card_rank_place (statistic : X → β) (fixed : X) (k : ℕ)
    (i : Fin (draws + 1)) :
    #{joint : Fin (draws + 1) → G | rank (fun j => statistic (joint j • fixed)) i ≤ k} =
      #{joint : Fin (draws + 1) → G | rank (fun j => statistic (joint j • fixed)) 0 ≤ k} := by
  have hrename (joint : Fin (draws + 1) → G) :
      rank (fun j => statistic (joint j • fixed)) i =
        rank (fun j => statistic ((joint ∘ Equiv.swap 0 i) j • fixed)) 0 := by
    have h := rank_comp (fun j => statistic (joint j • fixed)) (Equiv.swap 0 i) 0
    rw [Equiv.swap_apply_left] at h
    exact h.symm
  refine card_bij (fun joint _ => joint ∘ Equiv.swap 0 i) ?_ ?_ ?_
  · intro joint hjoint
    rw [mem_filter, hrename] at hjoint
    exact mem_filter.mpr ⟨mem_univ _, hjoint.2⟩
  · intro first _ second _ h
    exact (Equiv.swap 0 i).surjective.injective_comp_right h
  · intro joint hjoint
    have hswap : (joint ∘ Equiv.swap 0 i) ∘ Equiv.swap 0 i = joint := by
      funext j
      simp
    refine ⟨joint ∘ Equiv.swap 0 i, mem_filter.mpr ⟨mem_univ _, ?_⟩, hswap⟩
    rw [hrename, hswap]
    exact (mem_filter.mp hjoint).2

/-- Among all outcomes, at most `k` in `draws + 1` have fewer than `k` extreme draws. -/
theorem card_extreme_draws_le (draws : ℕ) (statistic : X → β) (fixed : X) (k : ℕ) :
    (draws + 1) * #{outcome : G × (Fin draws → G) |
        extremeDraws statistic (outcome.1 • fixed) outcome.2 + 1 ≤ k} ≤
      k * Fintype.card (G × (Fin draws → G)) := by
  have hjoint : #{outcome : G × (Fin draws → G) |
        extremeDraws statistic (outcome.1 • fixed) outcome.2 + 1 ≤ k} =
      #{joint : Fin (draws + 1) → G | rank (fun j => statistic (joint j • fixed)) 0 ≤ k} := by
    refine card_equiv (jointDraw G draws) fun outcome => ?_
    rw [mem_filter, mem_filter, extreme_draws_succ]
    exact and_congr_left fun _ => iff_of_true (mem_univ _) (mem_univ _)
  calc (draws + 1) * #{outcome : G × (Fin draws → G) |
          extremeDraws statistic (outcome.1 • fixed) outcome.2 + 1 ≤ k}
      = ∑ _i : Fin (draws + 1),
          #{joint : Fin (draws + 1) → G | rank (fun j => statistic (joint j • fixed)) 0 ≤ k} := by
        rw [sum_const, card_univ, Fintype.card_fin, smul_eq_mul, hjoint]
    _ = ∑ i : Fin (draws + 1),
          #{joint : Fin (draws + 1) → G | rank (fun j => statistic (joint j • fixed)) i ≤ k} :=
        sum_congr rfl fun i _ => (card_rank_place statistic fixed k i).symm
    _ = ∑ joint : Fin (draws + 1) → G,
          #{i | rank (fun j => statistic (joint j • fixed)) i ≤ k} :=
        (sum_card_bipartiteAbove_eq_sum_card_bipartiteBelow _).symm
    _ ≤ ∑ _joint : Fin (draws + 1) → G, k := sum_le_sum fun _ _ => card_rank_le _ _
    _ = k * Fintype.card (G × (Fin draws → G)) := by
        rw [sum_const, smul_eq_mul, card_univ, Fintype.card_congr (jointDraw G draws), mul_comm]

/-- A randomization test is exact: among all outcomes, at most a share `α` has a p-value of at most
`α`. -/
theorem card_p_value_le (draws : ℕ) (statistic : X → β) (fixed : X) {α : ℚ} (hα : 0 ≤ α) :
    (#{outcome : G × (Fin draws → G) |
        pValue statistic (outcome.1 • fixed) outcome.2 ≤ α} : ℚ) ≤
      α * Fintype.card (G × (Fin draws → G)) := by
  have hpos : (0 : ℚ) < draws + 1 := by positivity
  have hiff (outcome : G × (Fin draws → G)) :
      pValue statistic (outcome.1 • fixed) outcome.2 ≤ α ↔
        extremeDraws statistic (outcome.1 • fixed) outcome.2 + 1 ≤ ⌊α * (draws + 1)⌋₊ := by
    rw [pValue, div_le_iff₀ hpos, Nat.le_floor_iff (by positivity)]
    push_cast
    rfl
  simp only [hiff]
  have hcount := card_extreme_draws_le (G := G) draws statistic fixed
    ⌊α * (draws + 1)⌋₊
  have hfloor : (⌊α * (draws + 1)⌋₊ : ℚ) ≤ α * (draws + 1) := Nat.floor_le (by positivity)
  generalize #{outcome : G × (Fin draws → G) |
    extremeDraws statistic (outcome.1 • fixed) outcome.2 + 1 ≤ ⌊α * (draws + 1)⌋₊} = count at hcount
  have hcast : ((draws : ℚ) + 1) * count ≤
      ⌊α * (draws + 1)⌋₊ * Fintype.card (G × (Fin draws → G)) := by exact_mod_cast hcount
  refine le_of_mul_le_mul_left ?_ hpos
  calc ((draws : ℚ) + 1) * count
      ≤ ⌊α * (draws + 1)⌋₊ * Fintype.card (G × (Fin draws → G)) := hcast
    _ ≤ α * (draws + 1) * Fintype.card (G × (Fin draws → G)) :=
        mul_le_mul_of_nonneg_right hfloor (Nat.cast_nonneg _)
    _ = (draws + 1) * (α * Fintype.card (G × (Fin draws → G))) := by ring

end Test

end LatentMesh.Lib
