import LatentMesh.Core.LatentFrame

/-!
# Floating-point operations

The operations on floats that the modelled code uses. They are a parameter of the models, and
nothing is assumed about them.
-/

namespace LatentMesh.Core

/-- A 64-bit float by its bits. -/
structure F64 where
  bits : UInt64
  deriving DecidableEq, Repr

/-- The operations on `f32`. -/
structure FloatOps where
  add : F32 → F32 → F32
  sub : F32 → F32 → F32
  mul : F32 → F32 → F32
  div : F32 → F32 → F32
  /-- `f32::min`. -/
  min : F32 → F32 → F32
  lt : F32 → F32 → Bool
  le : F32 → F32 → Bool
  /-- `as f32`. -/
  ofNat : Nat → F32
  /-- `{:.3}`. -/
  fixed3 : F32 → String

/-- The operations on `f64`. -/
structure DoubleOps where
  add : F64 → F64 → F64
  div : F64 → F64 → F64
  lt : F64 → F64 → Bool
  le : F64 → F64 → Bool
  /-- `f64::partial_cmp`. -/
  partialCmp : F64 → F64 → Option Ordering
  /-- `as f64`. -/
  ofNat : Nat → F64

/-- `f32::clamp`. -/
def FloatOps.clamp (ops : FloatOps) (value low high : F32) : F32 :=
  let value := if ops.lt value low then low else value
  if ops.lt high value then high else value

namespace F32

/-- `0.0`. -/
def zero : F32 := ⟨0x00000000⟩

/-- `1.0`. -/
def one : F32 := ⟨0x3f800000⟩

/-- `f32::abs`. -/
def abs (self : F32) : F32 := ⟨self.bits &&& 0x7fffffff⟩

end F32

/-- `0.0`. -/
def F64.zero : F64 := ⟨0⟩

end LatentMesh.Core
