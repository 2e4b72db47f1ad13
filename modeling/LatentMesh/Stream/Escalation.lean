import LatentMesh.Core.Authority
import LatentMesh.Core.Floats

/-!
# Authority escalation

`AuthorityEscalator` of `escalation.rs`: the confidences of the frames move a stream up and down the
authority ladder. `evidence` counts the frames that a rung and the frames on it stand for, and one
observation raises it by one at most (`AuthorityEscalator.observe_evidence`), whatever the floats
are.
-/

namespace LatentMesh.Stream

open LatentMesh.Core

/-- The thresholds of the rungs. -/
structure EscalationConfig where
  emaAlpha : F32
  contextInjectThreshold : F32
  latentPrefixThreshold : F32
  actionInfluencingThreshold : F32
  minFramesPerRung : UInt32

namespace EscalationConfig

/-- The values 0.3, 0.5, 0.75, 0.9 and 3. -/
def default : EscalationConfig where
  emaAlpha := ⟨0x3e99999a⟩
  contextInjectThreshold := ⟨0x3f000000⟩
  latentPrefixThreshold := ⟨0x3f400000⟩
  actionInfluencingThreshold := ⟨0x3f666666⟩
  minFramesPerRung := 3

/-- The confidence that a rung asks for. -/
def thresholdFor (self : EscalationConfig) : Authority → F32
  | .observeOnly => .zero
  | .contextInject => self.contextInjectThreshold
  | .latentPrefix => self.latentPrefixThreshold
  | .actionInfluencing => self.actionInfluencingThreshold

/-- The frames that a rung takes: at least one. -/
def framesPerRung (self : EscalationConfig) : Nat := max 1 self.minFramesPerRung.toNat

end EscalationConfig

/-- `next_rung`. -/
def nextRung : Authority → Option Authority
  | .observeOnly => some .contextInject
  | .contextInject => some .latentPrefix
  | .latentPrefix => some .actionInfluencing
  | .actionInfluencing => none

/-- `previous_rung`. -/
def previousRung : Authority → Option Authority
  | .observeOnly => none
  | .contextInject => some .observeOnly
  | .latentPrefix => some .contextInject
  | .actionInfluencing => some .latentPrefix

/-- The next rung is one higher. -/
theorem rank_of_next_rung {current higher : Authority} (h : nextRung current = some higher) :
    higher.rank = current.rank + 1 := by
  cases current <;> cases h <;> rfl

/-- The previous rung is one lower. -/
theorem rank_of_previous_rung {current lower : Authority} (h : previousRung current = some lower) :
    current.rank = lower.rank + 1 := by
  cases current <;> cases h <;> rfl

/-- `u32::saturating_add(1)`. -/
def saturatingSucc (count : UInt32) : UInt32 :=
  if count = 0xffffffff then count else count + 1

/-- The saturating count goes up by one at most and is not zero. -/
theorem saturating_succ_bounds (count : UInt32) :
    1 ≤ (saturatingSucc count).toNat ∧ (saturatingSucc count).toNat ≤ count.toNat + 1 := by
  unfold saturatingSucc
  split
  · rename_i hmax
    rw [hmax]
    decide
  · rename_i hmax
    have hne : count.toNat ≠ 0xffffffff := fun heq => hmax (UInt32.toNat_inj.mp heq)
    have hbound := count.toNat_lt
    rw [UInt32.toNat_add, UInt32.toNat_one, Nat.mod_eq_of_lt (by omega)]
    omega

/-- The authority that a stream has earned. -/
structure AuthorityEscalator where
  config : EscalationConfig
  current : Authority
  ema : F32
  framesAtRung : UInt32
  seenAny : Bool

namespace AuthorityEscalator

/-- `AuthorityEscalator::new`. -/
def new (config : EscalationConfig) : AuthorityEscalator := ⟨config, .observeOnly, .zero, 0, false⟩

/-- A gap takes all earned authority. -/
def reset (self : AuthorityEscalator) : AuthorityEscalator := new self.config

variable (ops : FloatOps)

/-- The average with one more confidence. -/
def nextEma (self : AuthorityEscalator) (confidence : F32) : F32 :=
  let c := ops.clamp confidence .zero .one
  if self.seenAny then
    ops.add (ops.mul self.config.emaAlpha c)
      (ops.mul (ops.sub .one self.config.emaAlpha) self.ema)
  else c

/-- The `while` loop that drops rungs until the average supports the level. -/
def deEscalate (self : AuthorityEscalator) : AuthorityEscalator :=
  if ops.lt self.ema (self.config.thresholdFor self.current) then
    match hlower : previousRung self.current with
    | some lower =>
        have _hrank := rank_of_previous_rung hlower
        deEscalate { self with current := lower, framesAtRung := 0 }
    | none => self
  else self
termination_by self.current.rank

/-- One rung up at most, after enough frames on the current one. -/
def escalate (self : AuthorityEscalator) : AuthorityEscalator :=
  if self.config.minFramesPerRung ≤ self.framesAtRung then
    match nextRung self.current with
    | some higher =>
        if ops.le (self.config.thresholdFor higher) self.ema then
          { self with current := higher, framesAtRung := 0 }
        else self
    | none => self
  else self

/-- The escalator after one accepted frame, and the effective authority of the frame. -/
def observe (self : AuthorityEscalator) (declared : Authority) (frameConfidence : F32) :
    AuthorityEscalator × Authority :=
  let counted :=
    { self with
      ema := self.nextEma ops frameConfidence
      seenAny := true
      framesAtRung := saturatingSucc self.framesAtRung }
  let settled := (counted.deEscalate ops).escalate ops
  (settled, min settled.current declared)

/-- The frames that the earned rung stands for, and those on it. -/
def evidence (self : AuthorityEscalator) : Nat :=
  self.current.rank * self.config.framesPerRung + self.framesAtRung.toNat

variable {ops} {self : AuthorityEscalator}

/-- The loop changes nothing, or it drops rungs and starts to count again. -/
theorem de_escalate_cases (self : AuthorityEscalator) :
    self.deEscalate ops = self ∨
      ((self.deEscalate ops).config = self.config ∧
        (self.deEscalate ops).current.rank < self.current.rank ∧
        (self.deEscalate ops).framesAtRung = 0) := by
  induction self using deEscalate.induct ops with
  | case1 self hlow lower hlower _ ih =>
      have hrank := rank_of_previous_rung hlower
      have hturn : self.deEscalate ops =
          deEscalate ops { self with current := lower, framesAtRung := 0 } := by
        rw [deEscalate, if_pos hlow]
        split
        · rename_i found hfound
          rw [hlower] at hfound
          cases hfound
          rfl
        · rename_i hnone
          rw [hlower] at hnone
          cases hnone
      rw [hturn]
      rcases ih with hsame | ⟨hconfig, hlt, hzero⟩
      · rw [hsame]
        exact Or.inr ⟨rfl, by dsimp only; omega, rfl⟩
      · exact Or.inr ⟨hconfig, by dsimp only at hlt; omega, hzero⟩
  | case2 self hlow hnone =>
      refine Or.inl ?_
      rw [deEscalate, if_pos hlow]
      split
      · rename_i hfound
        rw [hnone] at hfound
        cases hfound
      · rfl
  | case3 self hhigh =>
      refine Or.inl ?_
      rw [deEscalate, if_neg hhigh]

/-- The escalation changes nothing, or it goes one rung up after the frames that this takes. -/
theorem escalate_cases (self : AuthorityEscalator) :
    self.escalate ops = self ∨
      (self.config.minFramesPerRung.toNat ≤ self.framesAtRung.toNat ∧
        (self.escalate ops).config = self.config ∧
        (self.escalate ops).current.rank = self.current.rank + 1 ∧
        (self.escalate ops).framesAtRung = 0) := by
  unfold escalate
  split
  · rename_i henough
    split
    · rename_i higher hhigher
      split
      · exact Or.inr ⟨UInt32.le_iff_toNat_le.mp henough, rfl, rank_of_next_rung hhigher, rfl⟩
      · exact Or.inl rfl
    · exact Or.inl rfl
  · exact Or.inl rfl

/-- What an observation does to the rung and to the evidence. -/
theorem observe_evidence (self : AuthorityEscalator) (declared : Authority) (confidence : F32) :
    (self.observe ops declared confidence).1.config = self.config ∧
      (self.observe ops declared confidence).1.current.rank ≤ self.current.rank + 1 ∧
      (self.observe ops declared confidence).1.evidence ≤ self.evidence + 1 := by
  obtain ⟨hpos, hcount⟩ := saturating_succ_bounds self.framesAtRung
  unfold observe
  generalize hcounted : ({ self with
    ema := self.nextEma ops confidence
    seenAny := true
    framesAtRung := saturatingSucc self.framesAtRung } : AuthorityEscalator) = counted
  have hconfig : counted.config = self.config := by rw [← hcounted]
  have hcurrent : counted.current = self.current := by rw [← hcounted]
  have hframes : counted.framesAtRung = saturatingSucc self.framesAtRung := by rw [← hcounted]
  dsimp only
  unfold evidence
  rcases @de_escalate_cases ops counted with hkept | ⟨hconfig', hdropped, hzero⟩
  · rw [hkept]
    rcases @escalate_cases ops counted with hsame | ⟨henough, hconfig', hraised, hzero'⟩
    · rw [hsame, hconfig, hcurrent, hframes]
      exact ⟨rfl, by omega, by omega⟩
    · -- the frame itself is on the rung, so a rung takes one frame at least
      have hper : self.config.framesPerRung ≤ self.framesAtRung.toNat + 1 := by
        rw [hconfig, hframes] at henough
        exact Nat.max_le.mpr ⟨by omega, Nat.le_trans henough hcount⟩
      rw [hconfig', hraised, hzero', hconfig, hcurrent, Nat.succ_mul, UInt32.toNat_zero]
      exact ⟨rfl, Nat.le_refl _, by omega⟩
  · -- at most one of the dropped rungs comes back
    have hback : ((counted.deEscalate ops).escalate ops).config = self.config ∧
        ((counted.deEscalate ops).escalate ops).current.rank ≤ self.current.rank ∧
        ((counted.deEscalate ops).escalate ops).framesAtRung = 0 := by
      rw [hcurrent] at hdropped
      rcases @escalate_cases ops (counted.deEscalate ops) with
        hsame | ⟨-, hconfig'', hraised, hzero'⟩
      · rw [hsame]
        exact ⟨hconfig'.trans hconfig, Nat.le_of_lt hdropped, hzero⟩
      · exact ⟨hconfig''.trans (hconfig'.trans hconfig), by omega, hzero'⟩
    obtain ⟨hsettled, hrank, hnone⟩ := hback
    rw [hsettled, hnone, UInt32.toNat_zero]
    have hmul := Nat.mul_le_mul_right self.config.framesPerRung hrank
    exact ⟨rfl, Nat.le_succ_of_le hrank, by omega⟩

/-- The effective authority of a frame is within the one it declares. -/
theorem observe_le (self : AuthorityEscalator) (declared : Authority) (confidence : F32) :
    (self.observe ops declared confidence).2 ≤ declared :=
  min_le_right _ _

end AuthorityEscalator

end LatentMesh.Stream
