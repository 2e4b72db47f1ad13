import Mathlib.Order.Lattice

/-!
# Trajectory records

The records of `latentmesh-memory` and the fidelity continuum they move down on.
-/

namespace LatentMesh.Memory

/-- Where a record sits on the continuum, the most expensive tier first. -/
inductive Fidelity where
  | raw
  | compressed
  | prototype
  | rule
  deriving DecidableEq, Repr

namespace Fidelity

/-- The discriminant of a fidelity. -/
def rank : Fidelity → Nat
  | raw => 0
  | compressed => 1
  | prototype => 2
  | rule => 3

/-- The discriminant tells the fidelity. -/
theorem rank_injective : Function.Injective rank := by
  intro first second h
  cases first <;> cases second <;> first | rfl | cases h

instance : LinearOrder Fidelity where
  le first second := first.rank ≤ second.rank
  le_refl first := Nat.le_refl first.rank
  le_trans _ _ _ := Nat.le_trans
  le_antisymm _ _ h h' := rank_injective (Nat.le_antisymm h h')
  le_total first second := Nat.le_total first.rank second.rank
  toDecidableLE first second := inferInstanceAs (Decidable (first.rank ≤ second.rank))
  toDecidableEq := inferInstance

/-- Nothing is below a rule. -/
theorem le_rule (fidelity : Fidelity) : fidelity ≤ rule := by
  cases fidelity <;> decide

/-- Nothing is above the raw tier. -/
theorem not_lt_raw (fidelity : Fidelity) : ¬ fidelity < raw := by
  cases fidelity <;> decide

/-- Prototypes and rules are at least prototypes. -/
theorem prototype_le_iff {fidelity : Fidelity} :
    prototype ≤ fidelity ↔ fidelity = prototype ∨ fidelity = rule := by
  cases fidelity <;> decide

end Fidelity

/-- A record; `φ` stands for `f32` and `δ` for `f64`. -/
structure TrajectoryRecord (φ δ : Type) where
  id : String
  latent : List φ
  reward : φ
  contextHash : String
  action : String
  outcome : String
  causalValue : δ
  fidelity : Fidelity
  reconstructionError : φ
  /-- The ids of the records it was folded from. -/
  parents : List String
  deriving DecidableEq, Repr

/-- What is remembered of a topology. -/
structure TopologyRecord where
  family : String
  agentSequence : List String
  successfulUses : UInt32
  deriving DecidableEq, Repr

/-- A rule that was promoted from a prototype. -/
structure SymbolicRule where
  family : String
  rule : String
  /-- The id of the prototype it was promoted from. -/
  promotedFrom : String
  uses : UInt32
  deriving DecidableEq, Repr

end LatentMesh.Memory
