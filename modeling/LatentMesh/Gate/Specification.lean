import Mathlib.Data.Rat.Defs
import Mathlib.Algebra.Order.Ring.Rat
import Mathlib.Tactic.NormNum
import LatentMesh.Gate.Admission

/-!
# The gate over exact numbers

`Gate::admit` over any type of floats (`admitWith`), which is `admitFrame` for the floats of the
program (`admit_frame_eq`). Over exact numbers extended with NaN it lets a frame pass whose risk is
not a number, because the comparison with the threshold is then false
(`admit_meets_specification_iff`).
-/

namespace LatentMesh.Gate

open LatentMesh.Core

/-- The float operations of the gate, and the values of the literals in `estimate_risk`. -/
structure RiskOps (φ : Type) where
  add : φ → φ → φ
  sub : φ → φ → φ
  mul : φ → φ → φ
  div : φ → φ → φ
  /-- `f32::min`. -/
  min : φ → φ → φ
  lt : φ → φ → Bool
  le : φ → φ → Bool
  /-- `as f32`. -/
  ofNat : Nat → φ
  zero : φ
  one : φ
  half : φ
  eight : φ
  fifth : φ
  authorityWeight : Authority → φ

variable {φ : Type}

/-- `f32::clamp`. -/
def RiskOps.clamp (ops : RiskOps φ) (value low high : φ) : φ :=
  let value := if ops.lt value low then low else value
  if ops.lt high value then high else value

/-- The risk of a frame, over any numbers. -/
def estimateRiskWith (ops : RiskOps φ) (frame : Frame φ) : φ :=
  let confidencePenalty := ops.clamp (ops.sub ops.one frame.confidence) ops.zero ops.one
  let provenanceDepthBonus :=
    ops.min (ops.div (ops.ofNat frame.provenance.parents.length) ops.eight) ops.fifth
  ops.clamp
    (ops.sub (ops.add (ops.authorityWeight frame.authority) (ops.mul ops.half confidencePenalty))
      provenanceDepthBonus) ops.zero ops.one

/-- `Gate::admit` over a type of floats. -/
def admitWith (ops : RiskOps φ) (frame : Frame φ) (policy : Policy φ) :
    Except (AdmissionError φ) Unit :=
  if ¬ policy.knownTransforms.contains frame.transformHash then
    .error (.unknownTransform frame.transformHash)
  else
    let ceiling := policy.ceiling (frame.senderModel, frame.receiverSpace)
    if ceiling < frame.authority then .error (.authorityExceedsCeiling frame.authority ceiling)
    else if frame.provenance.contextHash = "" then
      .error (.unresolvedProvenance "empty context_hash")
    else
      let risk := estimateRiskWith ops frame
      if ops.le policy.riskThreshold risk then .error (.riskTooHigh risk policy.riskThreshold)
      else .ok ()

/-- The operations on `f32`, with the literals by their bits. -/
def RiskOps.ofFloat (ops : FloatOps) : RiskOps F32 where
  add := ops.add
  sub := ops.sub
  mul := ops.mul
  div := ops.div
  min := ops.min
  lt := ops.lt
  le := ops.le
  ofNat := ops.ofNat
  zero := .zero
  one := .one
  half := ⟨0x3f000000⟩
  eight := ⟨0x41000000⟩
  fifth := ⟨0x3e4ccccd⟩
  authorityWeight := Gate.authorityWeight

/-- The gate of the program is the one over floats. -/
theorem admit_frame_eq (ops : FloatOps) (frame : LatentFrame) (policy : Policy) :
    admitFrame ops frame policy = admitWith (.ofFloat ops) frame policy := rfl

/-! ## Exact numbers and NaN -/

/-- An exact number, or NaN. -/
inductive Number where
  | nan
  | exact (value : ℚ)
  deriving DecidableEq

namespace Number

/-- An operation gives NaN when an operand is NaN. -/
def lift (op : ℚ → ℚ → ℚ) : Number → Number → Number
  | exact left, exact right => exact (op left right)
  | _, _ => nan

/-- `f32::min`: an operand that is NaN is ignored. -/
def min : Number → Number → Number
  | exact left, exact right => exact (left ⊓ right)
  | nan, right => right
  | left, nan => left

/-- A comparison with NaN is false. -/
def lt : Number → Number → Bool
  | exact left, exact right => decide (left < right)
  | _, _ => false

/-- The comparison `<=`, false for a value that is no number. -/
def le : Number → Number → Bool
  | exact left, exact right => decide (left ≤ right)
  | _, _ => false

/-- The weights of `estimate_risk` as they are written there. -/
def authorityWeight : Authority → Number
  | .observeOnly => exact (5 / 100)
  | .contextInject => exact (2 / 10)
  | .latentPrefix => exact (45 / 100)
  | .actionInfluencing => exact (75 / 100)

/-- The operations of the gate on exact numbers. It divides by 8 only. -/
def riskOps : RiskOps Number where
  add := lift (· + ·)
  sub := lift (· - ·)
  mul := lift (· * ·)
  div := lift (· / ·)
  min := min
  lt := lt
  le := le
  ofNat n := exact n
  zero := exact 0
  one := exact 1
  half := exact (5 / 10)
  eight := exact 8
  fifth := exact (2 / 10)
  authorityWeight := authorityWeight

/-- An operation on exact numbers is the exact operation. -/
@[simp] theorem lift_exact (op : ℚ → ℚ → ℚ) (left right : ℚ) :
    lift op (exact left) (exact right) = exact (op left right) := rfl

/-- NaN stays NaN between any bounds. -/
theorem clamp_nan (low high : Number) : riskOps.clamp nan low high = nan := by
  cases low <;> cases high <;> rfl

/-- A number stays a number between numbers. -/
theorem clamp_exact (value low high : ℚ) :
    ∃ result, riskOps.clamp (exact value) (exact low) (exact high) = exact result := by
  have hpick : ∀ (choice : Bool) (first second : ℚ),
      ∃ picked, (if choice then exact first else exact second) = exact picked := by
    intro choice first second
    cases choice
    · exact ⟨second, rfl⟩
    · exact ⟨first, rfl⟩
  obtain ⟨middle, hmiddle⟩ := hpick (lt (exact value) (exact low)) low value
  obtain ⟨result, hresult⟩ := hpick (lt (exact high) (exact middle)) high middle
  refine ⟨result, ?_⟩
  show (if lt (exact high) (if lt (exact value) (exact low) then exact low else exact value) then
    exact high else if lt (exact value) (exact low) then exact low else exact value) = _
  rw [hmiddle, hresult]

end Number

/-- `Gate::admit` with floats that are exact numbers or NaN. -/
def admitExact (frame : Frame Number) (policy : Policy Number) :
    Except (AdmissionError Number) Unit :=
  admitWith Number.riskOps frame policy

/-- The first three rules. -/
structure Permitted {φ : Type} (frame : Frame φ) (policy : Policy φ) : Prop where
  transform : frame.transformHash ∈ policy.knownTransforms
  authority : frame.authority ≤ policy.ceiling (frame.senderModel, frame.receiverSpace)
  provenance : frame.provenance.contextHash ≠ ""

/-- Both are numbers, and the first is below the second. -/
def Below (risk threshold : Number) : Prop :=
  ∃ value bound, risk = .exact value ∧ threshold = .exact bound ∧ value < bound

/-- The gate decides on the frame as its specification says. -/
def MeetsSpecification (frame : Frame Number) (policy : Policy Number) : Prop :=
  admitExact frame policy = .ok () ↔
    Permitted frame policy ∧ Below (estimateRiskWith Number.riskOps frame) policy.riskThreshold

variable {frame : Frame Number} {policy : Policy Number}

/-- What the code requires of a frame: the fourth rule is only that the risk is not known to reach
the threshold. -/
theorem admit_exact_eq_ok_iff :
    admitExact frame policy = .ok () ↔
      Permitted frame policy ∧
        Number.le policy.riskThreshold (estimateRiskWith Number.riskOps frame) = false := by
  unfold admitExact admitWith
  constructor
  · intro h
    split at h
    · cases h
    · rename_i hknown
      rw [not_not, List.contains_iff_mem] at hknown
      dsimp only at h
      split at h
      · cases h
      · rename_i hceiling
        split at h
        · cases h
        · rename_i hhash
          split at h
          · cases h
          · rename_i hrisk
            exact ⟨⟨hknown, not_lt.mp hceiling, hhash⟩, Bool.eq_false_iff.mpr hrisk⟩
  · rintro ⟨⟨hknown, hceiling, hhash⟩, hrisk⟩
    rw [if_neg (not_not.mpr (List.contains_iff_mem.mpr hknown))]
    dsimp only
    rw [if_neg (not_lt.mpr hceiling), if_neg hhash]
    exact if_neg (Bool.eq_false_iff.mp hrisk)

/-- The risk is a number exactly when the confidence is. -/
theorem risk_eq_nan_iff :
    estimateRiskWith Number.riskOps frame = .nan ↔ frame.confidence = .nan := by
  obtain ⟨weight, hweight⟩ :
      ∃ weight, Number.riskOps.authorityWeight frame.authority = .exact weight := by
    cases frame.authority <;> exact ⟨_, rfl⟩
  unfold estimateRiskWith
  cases frame.confidence with
  | nan =>
      refine iff_of_true ?_ rfl
      -- NaN goes through every operation
      have hpenalty : Number.riskOps.sub Number.riskOps.one .nan = .nan := rfl
      have hsum : Number.riskOps.add (.exact weight)
          (Number.riskOps.mul Number.riskOps.half .nan) = .nan := rfl
      have hrisk : ∀ bonus, Number.riskOps.sub .nan bonus = .nan := fun _ => rfl
      dsimp only
      rw [hpenalty, Number.clamp_nan, hweight, hsum, hrisk, Number.clamp_nan]
  | exact confidence =>
      refine iff_of_false ?_ (by simp)
      obtain ⟨penalty, hpenalty⟩ := Number.clamp_exact (1 - confidence) 0 1
      dsimp only
      rw [hweight]
      show Number.riskOps.clamp (Number.lift (· - ·) (Number.lift (· + ·) _ (Number.lift (· * ·)
        (.exact (5 / 10)) (Number.riskOps.clamp (.exact (1 - confidence)) (.exact 0) (.exact 1))))
        (.exact ((frame.provenance.parents.length / 8 : ℚ) ⊓ (2 / 10)))) (.exact 0) (.exact 1) ≠ _
      rw [hpenalty, Number.lift_exact, Number.lift_exact, Number.lift_exact]
      obtain ⟨risk, hrisk⟩ := Number.clamp_exact
        (weight + 5 / 10 * penalty - (frame.provenance.parents.length / 8 : ℚ) ⊓ (2 / 10)) 0 1
      rw [hrisk]
      simp

/-- Between numbers, not to reach the threshold is to be below it. -/
theorem below_iff {risk threshold : Number} (hrisk : risk ≠ .nan) (hthreshold : threshold ≠ .nan) :
    Below risk threshold ↔ Number.le threshold risk = false := by
  cases risk with
  | nan => exact absurd rfl hrisk
  | exact value =>
      cases threshold with
      | nan => exact absurd rfl hthreshold
      | exact bound => simp [Below, Number.le]

/-- The gate meets its specification on a frame exactly when one of the first three rules refuses
it, or its confidence and the threshold are numbers. -/
theorem admit_meets_specification_iff :
    MeetsSpecification frame policy ↔
      ¬ Permitted frame policy ∨ (frame.confidence ≠ .nan ∧ policy.riskThreshold ≠ .nan) := by
  rw [MeetsSpecification, admit_exact_eq_ok_iff]
  by_cases hpermitted : Permitted frame policy
  · simp only [hpermitted, true_and, not_true_eq_false, false_or]
    by_cases hnumbers : frame.confidence ≠ .nan ∧ policy.riskThreshold ≠ .nan
    · exact iff_of_true (below_iff (risk_eq_nan_iff.not.mpr hnumbers.1) hnumbers.2).symm hnumbers
    · refine iff_of_false (fun hspecification => ?_) hnumbers
      have hpassed : Number.le policy.riskThreshold (estimateRiskWith Number.riskOps frame) =
          false := by
        by_cases hconfidence : frame.confidence = .nan
        · rw [risk_eq_nan_iff.mpr hconfidence]
          cases policy.riskThreshold <;> rfl
        · have hthreshold : policy.riskThreshold = .nan := by
            by_contra hthreshold
            exact hnumbers ⟨hconfidence, hthreshold⟩
          rw [hthreshold]
          rfl
      obtain ⟨value, bound, hvalue, hbound, -⟩ := hspecification.mp hpassed
      refine hnumbers ⟨fun hconfidence => ?_, fun hthreshold => ?_⟩
      · rw [risk_eq_nan_iff.mpr hconfidence] at hvalue
        cases hvalue
      · rw [hthreshold] at hbound
        cases hbound
  · simp only [hpermitted, false_and, not_false_eq_true, true_or]

/-- A frame that asks for the highest authority with a confidence that is not a number. -/
def nanFrame : Frame Number where
  id := "f"
  senderModel := "a"
  receiverSpace := "b"
  transformHash := "t"
  sequence := 0
  payload := { encoding := .f32, dim := 0, bytes := [], int8Params := none }
  confidence := .nan
  provenance := { senderModel := "a", contextHash := "c", parents := [] }
  authority := .actionInfluencing
  timestamp := 0

/-- A policy with the highest ceiling and the threshold 0.1. -/
def strictPolicy : Policy Number where
  authorityCeilingByEdge := [(("a", "b"), .actionInfluencing)]
  riskThreshold := .exact (1 / 10)
  knownTransforms := ["t"]

/-- The gate lets the frame pass, although its risk is not a number. The same frame with the highest
confidence is refused. -/
theorem nan_risk_admitted :
    admitExact nanFrame strictPolicy = .ok () ∧
      estimateRiskWith Number.riskOps nanFrame = .nan ∧
      admitExact { nanFrame with confidence := .exact 1 } strictPolicy =
        .error (.riskTooHigh (.exact (3 / 4)) (.exact (1 / 10))) ∧
      (MeetsSpecification nanFrame strictPolicy ↔ False) := by
  have hadmitted : admitExact nanFrame strictPolicy = .ok () := by decide
  have hrisk : estimateRiskWith Number.riskOps nanFrame = .nan := by decide
  refine ⟨hadmitted, hrisk, by decide +kernel, ?_⟩
  rw [iff_false]
  intro hspecification
  obtain ⟨value, bound, hvalue, -⟩ := (hspecification.mp hadmitted).2
  rw [hrisk] at hvalue
  cases hvalue

end LatentMesh.Gate
