import LatentMesh.Stream.Codec

/-!
# A latent stream in chunks

A receiver pushes every chunk and pops frames until there is none. With chunks of at most one frame
its buffer never overflows, so it finds what the reader finds in the whole stream
(`FrameDecoder.receive_eq_ok_iff`): exactly the frames that were sent, when their confidences are
finite (`receive_accepted_iff`).
-/

namespace LatentMesh.Stream

open LatentMesh.Core LatentMesh.Lib

variable {serde : SerdeJson}

namespace FrameDecoder

/-- A frame that is popped leaves the buffer. -/
theorem next_frame_length {self next : FrameDecoder} {frame : LatentFrame}
    (h : self.nextFrame serde = (next, .ok (some frame))) :
    next.buffer.length < self.buffer.length := by
  unfold nextFrame at h
  split at h
  · cases h
  · rename_i hdecode
    cases h
    obtain ⟨hpos, hle⟩ := (frameReader serde).consumes hdecode
    show (self.buffer.drop _).length < _
    rw [List.length_drop]
    omega
  · cases h

/-- `while let Some(frame) = decoder.next_frame()?`. -/
def drain (serde : SerdeJson) (self : FrameDecoder) :
    FrameDecoder × List LatentFrame × Result Unit :=
  match hnext : self.nextFrame serde with
  | (next, .error error) => (next, [], .error error)
  | (next, .ok none) => (next, [], .ok ())
  | (next, .ok (some frame)) =>
      have _hshorter := next_frame_length hnext
      let rest := next.drain serde
      (rest.1, frame :: rest.2.1, rest.2.2)
termination_by self.buffer.length

/-- Push every chunk and drain the decoder behind it, up to the first error. -/
def receive (serde : SerdeJson) (self : FrameDecoder) :
    List (List UInt8) → FrameDecoder × List LatentFrame × Result Unit
  | [] => (self, [], .ok ())
  | chunk :: chunks =>
      match self.push chunk with
      | (next, .error error) => (next, [], .error error)
      | (next, .ok ()) =>
          match next.drain serde with
          | (next, frames, .error error) => (next, frames, .error error)
          | (next, frames, .ok ()) =>
              let rest := next.receive serde chunks
              (rest.1, frames ++ rest.2.1, rest.2.2)

/-! ## The decoder and the reader -/

/-- An error as the result of a loop. -/
def outcome (error : Option StreamError) : Result Unit :=
  match error with
  | none => .ok ()
  | some error => .error error

/-- One turn of the loop. -/
theorem drain_step (self : FrameDecoder) :
    self.drain serde =
      match self.nextFrame serde with
      | (next, .error error) => (next, [], .error error)
      | (next, .ok none) => (next, [], .ok ())
      | (next, .ok (some frame)) =>
          ((next.drain serde).1, frame :: (next.drain serde).2.1, (next.drain serde).2.2) := by
  rw [drain]
  split
  · rename_i hnext
    rw [hnext]
  · rename_i hnext
    rw [hnext]
  · rename_i hnext
    simp only [hnext]

/-- Draining the decoder is draining the reader. -/
theorem drain_eq (buffer : List UInt8) :
    drain serde ⟨buffer⟩ = (⟨((frameReader serde).drain buffer).2.1⟩,
      ((frameReader serde).drain buffer).1, outcome ((frameReader serde).drain buffer).2.2) := by
  induction buffer using Reader.drain.induct (frameReader serde) with
  | case1 buffer error hread =>
      have hdecode : decodeFrame serde buffer = .error error := hread
      rw [Reader.drain_error hread, drain_step, nextFrame, hdecode]
      rfl
  | case2 buffer hread =>
      have hdecode : decodeFrame serde buffer = .ok none := hread
      rw [Reader.drain_incomplete hread, drain_step, nextFrame, hdecode]
      rfl
  | case3 buffer frame consumed hread _ ih =>
      have hdecode : decodeFrame serde buffer = .ok (some (frame, consumed)) := hread
      rw [Reader.drain_item hread, drain_step, nextFrame, hdecode]
      dsimp only
      rw [ih]

/-- An incomplete frame is shorter than the longest frame. -/
theorem incomplete_length {buffer : List UInt8} (h : Incomplete buffer) :
    buffer.length < maxFrameBytes + lengthPrefixBytes := by
  have hprefix : lengthPrefixBytes ≤ maxFrameBytes + lengthPrefixBytes := Nat.le_add_left _ _
  rcases h with hshort | ⟨hdeclared, hpart⟩
  · exact Nat.lt_of_lt_of_le hshort hprefix
  · omega

/-- A push behind an incomplete frame keeps the bytes, unless they begin with a frame that is too
large. -/
theorem push_eq {buffer chunk : List UInt8} (hbuffer : Incomplete buffer)
    (hchunk : chunk.length ≤ maxFrameBytes + lengthPrefixBytes) :
    (∃ error, (push ⟨buffer⟩ chunk).2 = .error error ∧
        decodeFrame serde (buffer ++ chunk) = .error error) ∨
      push ⟨buffer⟩ chunk = (⟨buffer ++ chunk⟩, .ok ()) := by
  have hroom : ¬ maxBufferedBytes < buffer.length + chunk.length := by
    have hlength := incomplete_length hbuffer
    rw [maxBufferedBytes]
    omega
  unfold push
  rw [if_neg hroom]
  dsimp only
  split
  · rename_i hlarge
    exact Or.inl ⟨_, rfl, decode_oversized hlarge.1 hlarge.2⟩
  · exact Or.inr rfl

/-- With chunks of at most one frame the decoder finds what the reader finds, or both fail. -/
theorem receive_cases {chunks : List (List UInt8)}
    (hchunks : ∀ chunk ∈ chunks, chunk.length ≤ maxFrameBytes + lengthPrefixBytes)
    {buffer : List UInt8} (hbuffer : Incomplete buffer) :
    (((frameReader serde).feed buffer chunks).2.2 = none ∧
        receive serde ⟨buffer⟩ chunks = (⟨((frameReader serde).feed buffer chunks).2.1⟩,
          ((frameReader serde).feed buffer chunks).1, .ok ())) ∨
      ((∃ error, ((frameReader serde).feed buffer chunks).2.2 = some error) ∧
        ∃ error, (receive serde ⟨buffer⟩ chunks).2.2 = .error error) := by
  induction chunks generalizing buffer with
  | nil => exact Or.inl ⟨rfl, rfl⟩
  | cons chunk chunks ih =>
      rw [receive, Reader.feed]
      rcases @push_eq serde _ _ hbuffer (hchunks chunk (List.mem_cons_self ..)) with
        ⟨error, hpush, hdecode⟩ | hpush
      · -- the reader meets the frame that the push refuses
        rw [Reader.drain_error hdecode]
        refine Or.inr ⟨⟨error, rfl⟩, error, ?_⟩
        cases hresult : push ⟨buffer⟩ chunk with
        | mk next result =>
            rw [hresult] at hpush
            dsimp only at hpush
            rw [hpush]
      · rw [hpush]
        dsimp only
        rw [drain_eq]
        cases hdrain : (frameReader serde).drain (buffer ++ chunk) with
        | mk found rest =>
            obtain ⟨rest, error⟩ := rest
            cases error with
            | some error => exact Or.inr ⟨⟨error, rfl⟩, error, rfl⟩
            | none =>
                -- what is left waits for more, so the next chunk fits behind it
                have hrest : Incomplete rest := by
                  have hread := Reader.read_left (congrArg (fun d => d.2.2) hdrain)
                  rw [hdrain] at hread
                  exact decode_frame_eq_none_iff.mp hread
                dsimp only [outcome]
                rcases ih (fun other hother => hchunks other (List.mem_cons_of_mem _ hother))
                  hrest with ⟨hnone, heq⟩ | hfailed
                · rw [heq]
                  exact Or.inl ⟨hnone, rfl⟩
                · exact Or.inr hfailed

/-- Chunks are received without an error when every frame in them is read. -/
theorem receive_eq_ok_iff {chunks : List (List UInt8)}
    (hchunks : ∀ chunk ∈ chunks, chunk.length ≤ maxFrameBytes + lengthPrefixBytes)
    {buffer left : List UInt8} (hbuffer : Incomplete buffer) {frames : List LatentFrame} :
    receive serde ⟨buffer⟩ chunks = (⟨left⟩, frames, .ok ()) ↔
      (frameReader serde).feed buffer chunks = (frames, left, none) := by
  rcases @receive_cases serde chunks hchunks buffer hbuffer with
    ⟨hnone, heq⟩ | ⟨⟨error, hfed⟩, failure, hreceived⟩
  · rw [heq]
    constructor
    · intro h
      cases h
      exact Prod.ext rfl (Prod.ext rfl hnone)
    · intro h
      rw [h]
  · refine iff_of_false (fun h => ?_) (fun h => ?_)
    · rw [h] at hreceived
      cases hreceived
    · rw [h] at hfed
      cases hfed

end FrameDecoder

/-! ## Accepted frames -/

/-- An empty buffer is incomplete. -/
theorem incomplete_nil : Incomplete [] := Or.inl (by decide)

/-- Nothing is read from an empty buffer. -/
theorem decode_nil (serde : SerdeJson) : decodeFrame serde [] = .ok none :=
  decode_frame_eq_none_iff.mpr incomplete_nil

/-- What a new decoder receives is what the reader finds in the whole stream. -/
theorem receive_eq_drain_iff {frames : List LatentFrame} {chunks : List (List UInt8)}
    (hchunks : ∀ chunk ∈ chunks, chunk.length ≤ maxFrameBytes + lengthPrefixBytes) :
    FrameDecoder.new.receive serde chunks = (FrameDecoder.new, frames, .ok ()) ↔
      (frameReader serde).drain chunks.flatten = (frames, [], none) := by
  obtain ⟨-, herror, hsame⟩ :=
    @Reader.feed_eq _ _ _ (frameReader serde) [] (decode_nil serde) chunks
  rw [List.nil_append] at herror hsame
  refine (FrameDecoder.receive_eq_ok_iff hchunks incomplete_nil).trans ?_
  constructor
  · intro hfed
    rw [← hsame (congrArg (fun d => d.2.2) hfed)]
    exact hfed
  · intro hdrain
    rw [hsame (herror.trans (congrArg (fun d => d.2.2) hdrain))]
    exact hdrain

/-- The reader finds the frames that were sent exactly when their confidences are finite. -/
theorem drain_accepted_iff {frames : List LatentFrame} {encoded : List (List UInt8)}
    (hcodec : ∀ frame ∈ frames, serde.RoundTrips (documentOf frame))
    (h : List.Forall₂ (fun frame bytes => encodeFrame serde frame = .ok bytes) frames encoded) :
    (frameReader serde).drain encoded.flatten = (frames, [], none) ↔
      ∀ frame ∈ frames, frame.confidence.isFinite = true := by
  induction h with
  | nil =>
      have hnil := @Reader.drain_incomplete _ _ _ (frameReader serde) [] (decode_nil serde)
      rw [List.flatten_nil, hnil]
      exact iff_of_true rfl fun frame hframe => absurd hframe List.not_mem_nil
  | @cons frame bytes frames encoded hencode hrest ih =>
      obtain ⟨hshape, body, hbody, hlength, rfl⟩ := encode_frame_eq_ok_iff.mp hencode
      obtain ⟨hfinite, hnull⟩ :=
        decode_body_encoded (hcodec frame (List.mem_cons_self ..)) hshape hbody
      have hread := @decode_prefixed serde body hlength encoded.flatten
      rw [List.flatten_cons, List.forall_mem_cons]
      by_cases hconfidence : frame.confidence.isFinite = true
      · rw [hfinite hconfidence] at hread
        rw [Reader.drain_item hread, List.drop_left]
        have hothers := ih fun other hother => hcodec other (List.mem_cons_of_mem _ hother)
        rw [← hothers]
        constructor
        · intro heq
          have hitems : frame :: ((frameReader serde).drain encoded.flatten).1 = frame :: frames :=
            congrArg Prod.fst heq
          have hleft : ((frameReader serde).drain encoded.flatten).2 = ([], none) :=
            congrArg Prod.snd heq
          exact ⟨hconfidence, Prod.ext (List.cons.inj hitems).2 hleft⟩
        · rintro ⟨-, heq⟩
          rw [heq]
      · -- the peer cannot read the frame
        rw [hnull hconfidence] at hread
        rw [Reader.drain_error hread]
        exact iff_of_false (fun heq => by cases heq) fun hall => hconfidence hall.1

/-- Whatever the chunks are, a receiver gets exactly the frames that were sent, without an error and
with an empty buffer behind them, exactly when their confidences are finite. -/
theorem receive_accepted_iff {frames : List LatentFrame} {encoded chunks : List (List UInt8)}
    (hcodec : ∀ frame ∈ frames, serde.RoundTrips (documentOf frame))
    (hencoded : List.Forall₂ (fun frame bytes => encodeFrame serde frame = .ok bytes) frames
      encoded)
    (hchunks : ∀ chunk ∈ chunks, chunk.length ≤ maxFrameBytes + lengthPrefixBytes)
    (hflatten : chunks.flatten = encoded.flatten) :
    FrameDecoder.new.receive serde chunks = (FrameDecoder.new, frames, .ok ()) ↔
      ∀ frame ∈ frames, frame.confidence.isFinite = true := by
  rw [receive_eq_drain_iff hchunks, hflatten]
  exact drain_accepted_iff hcodec hencoded

/-- A frame in two chunks. -/
theorem receive_accepted_half :
    FrameDecoder.new.receive sampleSerde
        [(prefixed (sampleText halfText)).take 5, (prefixed (sampleText halfText)).drop 5] =
      (FrameDecoder.new, [sampleFrame half], .ok ()) := by
  have hlength : (prefixed (sampleText halfText)).length ≤ maxFrameBytes + lengthPrefixBytes := by
    rw [prefixed_length, sample_text_length]
    decide
  refine (@receive_accepted_iff sampleSerde [sampleFrame half] [prefixed (sampleText halfText)] _ ?_
    (.cons sample_encoded.1 .nil) ?_ ?_).mpr ?_
  · intro frame hframe
    rw [List.mem_singleton.mp hframe]
    exact sample_round_trips (Or.inl rfl)
  · intro chunk hchunk
    rcases List.mem_pair.mp hchunk with rfl | rfl
    · exact Nat.le_trans (List.length_take_le' _ _) hlength
    · rw [List.length_drop]
      exact Nat.le_trans (Nat.sub_le _ _) hlength
  · simp [List.take_append_drop]
  · intro frame hframe
    rw [List.mem_singleton.mp hframe]
    rfl

/-- A receiver does not get an accepted frame with the confidence NaN. -/
theorem receive_not_a_number :
    ∃ serde frame bytes, serde.RoundTrips (documentOf frame) ∧ encodeFrame serde frame = .ok bytes ∧
      bytes.length ≤ maxFrameBytes + lengthPrefixBytes ∧
      FrameDecoder.new.receive serde [bytes] ≠ (FrameDecoder.new, [frame], .ok ()) := by
  have hcodec := sample_round_trips (Or.inr rfl)
  have hlength : (prefixed (sampleText nullText)).length ≤ maxFrameBytes + lengthPrefixBytes := by
    rw [prefixed_length, sample_text_length]
    decide
  refine ⟨sampleSerde, sampleFrame notANumber, _, hcodec, sample_encoded.2, hlength, fun h => ?_⟩
  have hdrain := (receive_eq_drain_iff (List.forall_mem_singleton.mpr hlength)).mp h
  have hfinite := (drain_accepted_iff (List.forall_mem_singleton.mpr hcodec)
    (.cons sample_encoded.2 .nil)).mp hdrain
  exact absurd (hfinite _ (List.mem_singleton_self _)) (by decide)

end LatentMesh.Stream
