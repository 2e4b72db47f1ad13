/-!
# Latent frames

`LatentFrame` of `latentmesh-core` and the records in it. A frame is generic in its floats: the
frames of the program hold an `F32`, and their JSON documents hold what is written for one.
-/

namespace LatentMesh.Core

/-- A 32-bit float by its bits. -/
structure F32 where
  bits : UInt32
  deriving DecidableEq, Repr

/-- `f32::is_finite`: the exponent bits are not all ones. -/
def F32.isFinite (self : F32) : Bool := self.bits &&& 0x7f800000 != 0x7f800000

/-- How the floats of a payload are packed. -/
inductive Encoding where
  | f32
  | f16
  | int8
  deriving DecidableEq, Repr

namespace Encoding

/-- `Encoding::bytes_per_element`. -/
def bytesPerElement : Encoding → Nat
  | f32 => 4
  | f16 => 2
  | int8 => 1

/-- The `Debug` text. -/
def debug : Encoding → String
  | f32 => "F32"
  | f16 => "F16"
  | int8 => "Int8"

end Encoding

/-- The encoded values of a frame. -/
structure Payload (φ : Type) where
  encoding : Encoding
  dim : UInt64
  bytes : List UInt8
  /-- The scale and the zero point of an `Int8` payload. -/
  int8Params : Option (φ × Int32)
  deriving DecidableEq, Repr

/-- Where a frame comes from. -/
structure Provenance where
  senderModel : String
  contextHash : String
  parents : List String
  deriving DecidableEq, Repr

/-- What a receiver may let a frame do, ordered by risk. -/
inductive Authority where
  | observeOnly
  | contextInject
  | latentPrefix
  | actionInfluencing
  deriving DecidableEq, Repr

/-- A frame over any type of numbers. -/
structure Frame (φ : Type) where
  id : String
  senderModel : String
  receiverSpace : String
  transformHash : String
  sequence : UInt64
  payload : Payload φ
  confidence : φ
  provenance : Provenance
  authority : Authority
  timestamp : UInt64
  deriving DecidableEq, Repr

/-- A frame of the program. -/
abbrev LatentFrame := Frame F32

/-- No float of the frame is NaN or infinite. -/
def Frame.FloatsFinite (self : LatentFrame) : Prop :=
  self.confidence.isFinite = true ∧
    ∀ params, self.payload.int8Params = some params → params.1.isFinite = true

end LatentMesh.Core
