import LatentMesh.Core.Authority
import LatentMesh.Core.Floats

/-!
# The admission gate

`Gate::admit` of `latentmesh-gate`: the transform of a frame must be known, its authority within the
ceiling of its edge, its provenance bound, and its estimated risk below the threshold. The first
violated rule is the answer.
-/

namespace LatentMesh.Gate

open LatentMesh.Core

/-- What a frame is checked against. -/
structure Policy (φ : Type := F32) where
  authorityCeilingByEdge : List ((String × String) × Authority)
  riskThreshold : φ
  knownTransforms : List String

/-- The ceiling of an edge: an edge that is not in the map has the floor. -/
def Policy.ceiling {φ : Type} (self : Policy φ) (edge : String × String) : Authority :=
  (self.authorityCeilingByEdge.lookup edge).getD .observeOnly

/-- Why a frame is not admitted. -/
inductive AdmissionError (φ : Type := F32) where
  | unknownTransform (transformHash : String)
  | authorityExceedsCeiling (requested ceiling : Authority)
  | unresolvedProvenance (why : String)
  | riskTooHigh (risk threshold : φ)
  deriving DecidableEq

variable (ops : FloatOps)

/-- The text of an error. -/
def AdmissionError.reason : AdmissionError → String
  | unknownTransform transformHash =>
      "transform `" ++ transformHash ++ "` is not a known/trusted alignment"
  | authorityExceedsCeiling requested ceiling =>
      "requested authority " ++ requested.debug ++ " exceeds this edge's ceiling " ++ ceiling.debug
  | unresolvedProvenance why => "provenance does not resolve: " ++ why
  | riskTooHigh risk threshold =>
      "estimated risk " ++ ops.fixed3 risk ++ " >= threshold " ++ ops.fixed3 threshold

/-- The weights 0.05, 0.2, 0.45 and 0.75. -/
def authorityWeight : Authority → F32
  | .observeOnly => ⟨0x3d4ccccd⟩
  | .contextInject => ⟨0x3e4ccccd⟩
  | .latentPrefix => ⟨0x3ee66666⟩
  | .actionInfluencing => ⟨0x3f400000⟩

/-- The bounds are 8.0 and 0.2, and the factor of the penalty is 0.5. -/
def estimateRisk (frame : LatentFrame) : F32 :=
  let confidencePenalty := ops.clamp (ops.sub .one frame.confidence) .zero .one
  let provenanceDepthBonus :=
    ops.min (ops.div (ops.ofNat frame.provenance.parents.length) ⟨0x41000000⟩) ⟨0x3e4ccccd⟩
  ops.clamp
    (ops.sub (ops.add (authorityWeight frame.authority) (ops.mul ⟨0x3f000000⟩ confidencePenalty))
      provenanceDepthBonus) .zero .one

/-- `Gate::admit`. -/
def admitFrame (frame : LatentFrame) (policy : Policy) : Except AdmissionError Unit :=
  if ¬ policy.knownTransforms.contains frame.transformHash then
    .error (.unknownTransform frame.transformHash)
  else
    let ceiling := policy.ceiling (frame.senderModel, frame.receiverSpace)
    if ceiling < frame.authority then .error (.authorityExceedsCeiling frame.authority ceiling)
    else if frame.provenance.contextHash = "" then
      .error (.unresolvedProvenance "empty context_hash")
    else
      let risk := estimateRisk ops frame
      if ops.le policy.riskThreshold risk then .error (.riskTooHigh risk policy.riskThreshold)
      else .ok ()

variable {ops}

/-- An admitted frame claims no more than the ceiling of its edge. -/
theorem authority_le_of_admit {frame : LatentFrame} {policy : Policy}
    (h : admitFrame ops frame policy = .ok ()) :
    frame.authority ≤ policy.ceiling (frame.senderModel, frame.receiverSpace) := by
  unfold admitFrame at h
  split at h
  · cases h
  · dsimp only at h
    split at h
    · cases h
    · exact not_lt.mp ‹_›

end LatentMesh.Gate
