import LatentMesh.Core.LatentFrame

/-!
# Frames as JSON

`serde_json` reads and writes the documents of frames. It is a parameter (`SerdeJson`): the text of
a document is not looked at, only what becomes of the floats is. A float that is not finite is
written as `null`, and `null` is refused where a float is read.
-/

namespace LatentMesh.Stream

open LatentMesh.Core

/-- A frame as JSON shows it: a float is a number or `null`. -/
abbrev FrameDocument := Frame (Option F32)

/-- `serde_json` on the documents of frames. Its errors are texts. -/
structure SerdeJson where
  render : FrameDocument → Except String (List UInt8)
  parse : List UInt8 → Except String FrameDocument
  /-- The text of the error for a `null` where a float is expected. -/
  nullText : List UInt8 → String

/-- Writing a float. -/
def writeF32 (value : F32) : Option F32 := if value.isFinite then some value else none

/-- Reading the dequantization parameters: `null` is no parameters, but not a scale. -/
def readParams : Option (Option F32 × Int32) → Option (Option (F32 × Int32))
  | none => some none
  | some (scale, zeroPoint) => scale.map fun scale => some (scale, zeroPoint)

/-- The document that a frame is written as. -/
def documentOf (frame : LatentFrame) : FrameDocument :=
  { frame with
    payload :=
      { frame.payload with
        int8Params := frame.payload.int8Params.map fun params => (writeF32 params.1, params.2) }
    confidence := writeF32 frame.confidence }

/-- The frame of a document, if no float in it is `null`. -/
def frameOf (document : FrameDocument) : Option LatentFrame :=
  document.confidence.bind fun confidence =>
  (readParams document.payload.int8Params).map fun int8Params =>
  { document with payload := { document.payload with int8Params }, confidence }

namespace SerdeJson

/-- `serde_json::to_vec` of a frame. -/
def toVec (self : SerdeJson) (frame : LatentFrame) : Except String (List UInt8) :=
  self.render (documentOf frame)

/-- `serde_json::from_slice` of a frame. -/
def fromSlice (self : SerdeJson) (bytes : List UInt8) : Except String LatentFrame :=
  (self.parse bytes).bind fun document =>
  match frameOf document with
  | some frame => .ok frame
  | none => .error (self.nullText bytes)

/-- A document that is written is read back. -/
def RoundTrips (self : SerdeJson) (document : FrameDocument) : Prop :=
  ∀ bytes, self.render document = .ok bytes → self.parse bytes = .ok document

end SerdeJson

variable {serde : SerdeJson} {frame : LatentFrame}

/-- The parameters of a payload are read back unless a number is not finite. -/
theorem read_params_write (params : Option (F32 × Int32)) :
    readParams (params.map fun params => (writeF32 params.1, params.2)) =
      if (∀ found, params = some found → found.1.isFinite = true) then some params else none := by
  cases params with
  | none => simp [readParams]
  | some params =>
      obtain ⟨scale, zeroPoint⟩ := params
      by_cases hfinite : scale.isFinite = true
      · simp [readParams, writeF32, hfinite]
      · simp [readParams, writeF32, hfinite]

/-- The document of a frame gives it back when its floats are finite. -/
theorem frame_of_document_of_finite (h : frame.FloatsFinite) :
    frameOf (documentOf frame) = some frame := by
  have hconfidence : (documentOf frame).confidence = some frame.confidence := if_pos h.1
  have hparams : readParams (documentOf frame).payload.int8Params =
      some frame.payload.int8Params :=
    (read_params_write frame.payload.int8Params).trans (if_pos h.2)
  rw [frameOf, hconfidence, Option.bind_some, hparams]
  rfl

/-- The document of a frame with a NaN or an infinity is the document of no frame. -/
theorem frame_of_document_of_not_finite (h : ¬ frame.FloatsFinite) :
    frameOf (documentOf frame) = none := by
  by_cases hconfidence : frame.confidence.isFinite = true
  · have hparams : readParams (documentOf frame).payload.int8Params = none :=
      (read_params_write frame.payload.int8Params).trans (if_neg fun hall => h ⟨hconfidence, hall⟩)
    rw [frameOf, hparams]
    cases (documentOf frame).confidence <;> rfl
  · have hnull : (documentOf frame).confidence = none := if_neg hconfidence
    rw [frameOf, hnull]
    rfl

namespace SerdeJson

/-- What is read from the bytes of a frame. -/
theorem from_slice_to_vec {bytes : List UInt8} (hcodec : serde.RoundTrips (documentOf frame))
    (h : serde.toVec frame = .ok bytes) :
    (frame.FloatsFinite → serde.fromSlice bytes = .ok frame) ∧
      (¬ frame.FloatsFinite → serde.fromSlice bytes = .error (serde.nullText bytes)) := by
  have hparse := hcodec bytes h
  constructor
  · intro hfinite
    rw [fromSlice, hparse]
    show (match frameOf (documentOf frame) with | some frame => _ | none => _) = _
    rw [frame_of_document_of_finite hfinite]
  · intro hfinite
    rw [fromSlice, hparse]
    show (match frameOf (documentOf frame) with | some frame => _ | none => _) = _
    rw [frame_of_document_of_not_finite hfinite]

end SerdeJson

end LatentMesh.Stream
