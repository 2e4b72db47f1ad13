/-!
# Codec identifiers

`CodecId` of `compat.rs`, which travels as one byte.
-/

namespace LatentMesh.Reasoning

/-- The codecs of a delta. -/
inductive CodecId where
  | raw
  | sparseResidualInt8
  | lowRank
  | learnedBottleneck
  | semantic
  deriving DecidableEq, Repr

/-- The errors of the codecs. -/
inductive CompatError where
  | unknownCodec (id : UInt8)
  | emptyInput
  | tooManyComponents
  | truncatedPayload
  | lengthMismatch
  deriving DecidableEq, Repr

namespace CodecId

/-- The code of a codec. -/
def toU8 : CodecId → UInt8
  | raw => 0
  | sparseResidualInt8 => 1
  | lowRank => 2
  | learnedBottleneck => 3
  | semantic => 4

/-- The codec of a code. -/
def tryFrom (value : UInt8) : Except CompatError CodecId :=
  if value = 0 then .ok raw
  else if value = 1 then .ok sparseResidualInt8
  else if value = 2 then .ok lowRank
  else if value = 3 then .ok learnedBottleneck
  else if value = 4 then .ok semantic
  else .error (.unknownCodec value)

/-- The codes of codecs. -/
theorem try_from_eq_ok_iff {value : UInt8} {codec : CodecId} :
    tryFrom value = .ok codec ↔ codec.toU8 = value := by
  constructor
  · intro h
    unfold tryFrom at h
    split at h
    · cases h
      exact Eq.symm ‹_›
    · split at h
      · cases h
        exact Eq.symm ‹_›
      · split at h
        · cases h
          exact Eq.symm ‹_›
        · split at h
          · cases h
            exact Eq.symm ‹_›
          · split at h
            · cases h
              exact Eq.symm ‹_›
            · cases h
  · rintro rfl
    cases codec <;> rfl

end CodecId

end LatentMesh.Reasoning
