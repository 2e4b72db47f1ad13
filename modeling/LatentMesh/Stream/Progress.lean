import LatentMesh.Stream.Codec

/-!
# Progress behind a malformed frame

`next_frame` leaves the buffer as it is when it returns an error, so every later call returns the
same error (`FrameDecoder.error_repeats`). The decoder makes progress exactly on the buffers that
give no error: well-formed frames with an incomplete one behind them
(`FrameDecoder.makes_progress_iff`).
-/

namespace LatentMesh.Stream

open LatentMesh.Core LatentMesh.Lib

variable {serde : SerdeJson}

/-- The body is the JSON of a frame with a consistent payload. -/
def Readable (serde : SerdeJson) (body : List UInt8) (frame : LatentFrame) : Prop :=
  body.length ≤ maxFrameBytes ∧ serde.fromSlice body = .ok frame ∧
    validatePayloadShape frame = .ok ()

/-- Well-formed frames with an incomplete one behind them. -/
inductive WellFormed (serde : SerdeJson) : List UInt8 → Prop where
  | incomplete {buffer : List UInt8} : Incomplete buffer → WellFormed serde buffer
  | frame {body rest : List UInt8} {frame : LatentFrame} :
      Readable serde body frame → WellFormed serde rest → WellFormed serde (prefixed body ++ rest)

/-- A body is decoded when it is the text of a frame of a valid shape. -/
theorem decode_body_eq_ok_iff {body : List UInt8} {frame : LatentFrame} :
    decodeBody serde body = .ok frame ↔
      serde.fromSlice body = .ok frame ∧ validatePayloadShape frame = .ok () := by
  rw [decodeBody]
  cases serde.fromSlice body with
  | error why => simp [Except.mapError, Except.bind]
  | ok found =>
      show (validatePayloadShape found).bind _ = _ ↔ _
      rw [Lib.bind_eq_ok_iff]
      constructor
      · rintro ⟨u, hshape, heq⟩
        cases heq
        exact ⟨rfl, hshape⟩
      · rintro ⟨heq, hshape⟩
        cases heq
        exact ⟨(), hshape, rfl⟩

namespace FrameDecoder

/-- The decoder after some calls of `next_frame`. -/
def after (serde : SerdeJson) (self : FrameDecoder) : Nat → FrameDecoder
  | 0 => self
  | count + 1 => ((self.after serde count).nextFrame serde).1

/-- The answer of the next call. -/
def answer (serde : SerdeJson) (self : FrameDecoder) (count : Nat) : Result (Option LatentFrame) :=
  ((self.after serde count).nextFrame serde).2

/-- Every call that returns an error removes the frame that it is about, or clears the buffer. Calls
reach `None`, and return the well-formed frames behind a malformed body. -/
structure MakesProgress (serde : SerdeJson) (decoder : FrameDecoder) : Prop where
  consumes : ∀ count error, decoder.answer serde count = .error error →
    (decoder.after serde (count + 1)).buffer = [] ∨
      ∃ removed, lengthPrefixBytes + declaredLength (decoder.after serde count).buffer ≤ removed ∧
        (decoder.after serde (count + 1)).buffer =
          (decoder.after serde count).buffer.drop removed
  reaches_none : ∃ count, decoder.answer serde count = .ok none
  recovers : ∀ count body bodies rest frames,
    (decoder.after serde count).buffer =
      prefixed body ++ ((bodies.map prefixed).flatten ++ rest) →
    body.length ≤ maxFrameBytes → (∀ frame, ¬ Readable serde body frame) →
    List.Forall₂ (Readable serde) bodies frames →
    ∀ index frame, frames[index]? = some frame →
      decoder.answer serde (count + 1 + index) = .ok (some frame)

variable {decoder : FrameDecoder}

/-- A frame that is decoded is taken from the buffer. -/
theorem next_frame_of_decode {frame : LatentFrame} {consumed : Nat}
    (h : decodeFrame serde decoder.buffer = .ok (some (frame, consumed))) :
    decoder.nextFrame serde = (⟨decoder.buffer.drop consumed⟩, .ok (some frame)) := by
  rw [nextFrame, h]

/-- What a call does to the buffer. -/
theorem next_frame_cases (decoder : FrameDecoder) :
    (∃ error, decodeFrame serde decoder.buffer = .error error ∧
        decoder.nextFrame serde = (decoder, .error error)) ∨
      (Incomplete decoder.buffer ∧ decoder.nextFrame serde = (decoder, .ok none)) ∨
      ∃ body rest frame, Readable serde body frame ∧ decoder.buffer = prefixed body ++ rest ∧
        decoder.nextFrame serde = (⟨rest⟩, .ok (some frame)) := by
  cases hdecode : decodeFrame serde decoder.buffer with
  | error error =>
      refine Or.inl ⟨error, rfl, ?_⟩
      rw [nextFrame, hdecode]
  | ok found =>
      cases found with
      | none =>
          refine Or.inr (Or.inl ⟨decode_frame_eq_none_iff.mp hdecode, ?_⟩)
          rw [nextFrame, hdecode]
      | some found =>
          obtain ⟨frame, consumed⟩ := found
          obtain ⟨body, rest, hlength, hbuffer, hbody, heq⟩ := decode_frame_eq_some hdecode
          have hreadable : Readable serde body frame := ⟨hlength, decode_body_eq_ok_iff.mp hbody⟩
          refine Or.inr (Or.inr ⟨body, rest, frame, hreadable, hbuffer, ?_⟩)
          rw [next_frame_of_decode hdecode, heq, hbuffer, List.drop_left]

/-- A readable body is returned, and the rest stays. -/
theorem next_frame_readable {body : List UInt8} {frame : LatentFrame}
    (h : Readable serde body frame) (rest : List UInt8) :
    nextFrame serde ⟨prefixed body ++ rest⟩ = (⟨rest⟩, .ok (some frame)) := by
  have hdecode : decodeFrame serde (prefixed body ++ rest) =
      .ok (some (frame, (prefixed body).length)) := by
    rw [decode_prefixed h.1, decode_body_eq_ok_iff.mpr h.2]
    rfl
  have hdrop : (prefixed body ++ rest).drop (prefixed body).length = rest := List.drop_left
  have hnext := @next_frame_of_decode serde ⟨prefixed body ++ rest⟩ _ _ hdecode
  rw [hnext, hdrop]

/-- A call that fails changes nothing. -/
theorem after_error {count : Nat} {error : StreamError}
    (h : decoder.answer serde count = .error error) :
    decoder.after serde (count + 1) = decoder.after serde count := by
  show ((decoder.after serde count).nextFrame serde).1 = _
  unfold answer at h
  rcases @next_frame_cases serde (decoder.after serde count) with
    ⟨_, -, hnext⟩ | ⟨-, hnext⟩ | ⟨_, _, _, -, -, hnext⟩
  · rw [hnext]
  · rw [hnext]
  · rw [hnext] at h
    cases h

/-- After an error every call returns it again. -/
theorem error_repeats {count : Nat} {error : StreamError}
    (h : decoder.answer serde count = .error error) {later : Nat} (hlater : count ≤ later) :
    decoder.answer serde later = .error error := by
  induction hlater with
  | refl => exact h
  | step _ ih =>
      rw [answer, after_error ih]
      exact ih

/-- The calls after the first one. -/
theorem after_succ (decoder : FrameDecoder) (count : Nat) :
    decoder.after serde (count + 1) = (decoder.nextFrame serde).1.after serde count := by
  induction count with
  | zero => rfl
  | succ count ih =>
      show ((decoder.after serde (count + 1)).nextFrame serde).1 = _
      rw [ih]
      rfl

/-- A decoder that makes progress never returns an error. -/
theorem MakesProgress.no_error (h : decoder.MakesProgress serde) (count : Nat)
    (error : StreamError) : decoder.answer serde count ≠ .error error := by
  intro herror
  have hsame := after_error herror
  have hlong : lengthPrefixBytes ≤ (decoder.after serde count).buffer.length := by
    -- a buffer without a whole prefix asks for more bytes
    by_contra hshort
    have hnone := @decode_frame_eq_none_iff serde (decoder.after serde count).buffer
    rw [answer, nextFrame, hnone.mpr (Or.inl (Nat.not_le.mp hshort))] at herror
    cases herror
  rcases h.consumes count error herror with hempty | ⟨removed, hremoved, hdrop⟩
  · rw [hsame] at hempty
    rw [hempty] at hlong
    exact absurd hlong (by decide)
  · rw [hsame] at hdrop
    have hlength := congrArg List.length hdrop
    rw [List.length_drop] at hlength
    rw [lengthPrefixBytes] at hlong hremoved
    omega

/-- A well-formed buffer stays one, and gives no error. -/
theorem well_formed_next (h : WellFormed serde decoder.buffer) :
    WellFormed serde (decoder.nextFrame serde).1.buffer ∧
      ∀ error, (decoder.nextFrame serde).2 ≠ .error error := by
  obtain ⟨buffer⟩ := decoder
  replace h : WellFormed serde buffer := h
  cases h with
  | incomplete hpart =>
      rw [nextFrame, decode_frame_eq_none_iff.mpr hpart]
      exact ⟨.incomplete hpart, fun error heq => by cases heq⟩
  | frame hbody hrest =>
      rw [next_frame_readable hbody]
      exact ⟨hrest, fun error heq => by cases heq⟩

/-- A well-formed buffer stays so. -/
theorem well_formed_after (h : WellFormed serde decoder.buffer) (count : Nat) :
    WellFormed serde (decoder.after serde count).buffer := by
  induction count with
  | zero => exact h
  | succ count ih => exact (well_formed_next ih).1

/-- The frames of a well-formed buffer come to an end. -/
theorem well_formed_reaches_none {buffer : List UInt8} (h : WellFormed serde buffer) :
    ∃ count, answer serde ⟨buffer⟩ count = .ok none := by
  induction h with
  | incomplete hpart =>
      refine ⟨0, ?_⟩
      show (nextFrame serde ⟨_⟩).2 = _
      rw [nextFrame, decode_frame_eq_none_iff.mpr hpart]
  | frame hbody hrest ih =>
      obtain ⟨count, hcount⟩ := ih
      refine ⟨count + 1, ?_⟩
      rw [answer, after_succ, next_frame_readable hbody]
      exact hcount

/-- A buffer that reaches `None` without an error is well formed. -/
theorem well_formed_of_no_error {count : Nat} (hnone : decoder.answer serde count = .ok none)
    (hok : ∀ count error, decoder.answer serde count ≠ .error error) :
    WellFormed serde decoder.buffer := by
  induction count generalizing decoder with
  | zero =>
      rcases @next_frame_cases serde decoder with ⟨_, -, hnext⟩ | ⟨hpart, -⟩ |
        ⟨_, _, _, -, -, hnext⟩
      · exact absurd (congrArg Prod.snd hnext) (hok 0 _)
      · exact .incomplete hpart
      · rw [answer, after, hnext] at hnone
        cases hnone
  | succ count ih =>
      rcases @next_frame_cases serde decoder with ⟨_, -, hnext⟩ | ⟨hpart, -⟩ |
        ⟨body, rest, frame, hbody, hbuffer, hnext⟩
      · exact absurd (congrArg Prod.snd hnext) (hok 0 _)
      · exact .incomplete hpart
      · rw [hbuffer]
        have hshift : ∀ later, decoder.answer serde (later + 1) = answer serde ⟨rest⟩ later := by
          intro later
          rw [answer, after_succ, hnext]
          rfl
        exact .frame hbody (@ih ⟨rest⟩ (hshift count ▸ hnone) fun later error =>
          hshift later ▸ hok (later + 1) error)

/-- The decoder makes progress on a buffer exactly when the buffer is well formed: an error would
come again and again. -/
theorem makes_progress_iff (serde : SerdeJson) (decoder : FrameDecoder) :
    decoder.MakesProgress serde ↔ WellFormed serde decoder.buffer := by
  constructor
  · intro h
    obtain ⟨count, hnone⟩ := h.reaches_none
    exact well_formed_of_no_error hnone h.no_error
  · intro h
    refine ⟨fun count error herror => ?_, well_formed_reaches_none h, ?_⟩
    · exact absurd herror ((well_formed_next (well_formed_after h count)).2 error)
    · intro count body bodies rest frames hbuffer hlength hbad hgood index frame hframe
      -- no call meets a malformed body
      have hnext := (well_formed_next (well_formed_after h count)).2
      cases hbody : decodeBody serde body with
      | ok found => exact absurd ⟨hlength, decode_body_eq_ok_iff.mp hbody⟩ (hbad found)
      | error error =>
          refine absurd ?_ (hnext error)
          rw [nextFrame, hbuffer, decode_prefixed hlength, hbody]
          rfl

/-- A body of one byte that is no JSON. -/
theorem malformed_body_sticks :
    ∃ serde decoder, FrameDecoder.new.push [0, 0, 0, 1, 0x58] = (decoder, .ok ()) ∧
      ¬ decoder.MakesProgress serde := by
  refine ⟨sampleSerde, ⟨[0, 0, 0, 1, 0x58]⟩, by decide, fun h => ?_⟩
  have hparse : sampleParse [0x58] = .error "expected value at line 1 column 1" := by
    have hdiffer : ∀ confidence, [0x58] ≠ sampleText confidence := by
      intro confidence heq
      have hlength := congrArg List.length heq
      rw [sample_text_length, List.length_singleton] at hlength
      omega
    rw [sampleParse, if_neg (hdiffer _), if_neg (hdiffer _)]
  have hbody : decodeBody sampleSerde [0x58] =
      .error (.malformed "expected value at line 1 column 1") := by
    show (((sampleParse [0x58]).bind _).mapError _).bind _ = _
    rw [hparse]
    rfl
  refine h.no_error 0 (.malformed "expected value at line 1 column 1") ?_
  show (nextFrame sampleSerde ⟨prefixed [0x58] ++ []⟩).2 = _
  rw [nextFrame]
  dsimp only
  rw [decode_prefixed (by decide), hbody]
  rfl

end FrameDecoder

end LatentMesh.Stream
