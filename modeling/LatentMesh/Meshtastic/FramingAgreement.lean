import LatentMesh.Meshtastic.Framing

/-!
# The two frame readers agree

`FrameDecoder.push` takes the decisions of `read_frame` byte by byte: one turn of the blocking
reader is a run of the state machine back to `SeekingStart1` (`FrameDecoder.push_turn`). So both
readers return the same bodies, however the stream is cut (`readers_agree`).
-/

namespace LatentMesh.Meshtastic

open LatentMesh.Lib

/-! ## The blocking reader -/

/-- A read at the end of the stream fails. -/
theorem read_frame_end {reader : List UInt8} (h : readTurn reader = .endOfStream) :
    readFrame reader = .error .unexpectedEof := by
  rw [readFrame]
  split <;> simp_all

/-- A read behind a false start goes on. -/
theorem read_frame_resync {reader rest : List UInt8} (h : readTurn reader = .resync rest) :
    readFrame reader = readFrame rest := by
  rw [readFrame]
  split <;> simp_all

/-- A read of a frame returns its body. -/
theorem read_frame_body {reader body rest : List UInt8} (h : readTurn reader = .frame body rest) :
    readFrame reader = .ok (body, rest) := by
  rw [readFrame]
  split <;> simp_all

/-- A frame leaves the reader fewer bytes. -/
theorem read_frame_length {reader body rest : List UInt8}
    (h : readFrame reader = .ok (body, rest)) : rest.length < reader.length := by
  induction hlength : reader.length using Nat.strong_induction_on generalizing reader with
  | _ length ih =>
      subst hlength
      cases hturn : readTurn reader with
      | endOfStream =>
          rw [read_frame_end hturn] at h
          cases h
      | resync next =>
          rw [read_frame_resync hturn] at h
          have hnext := read_turn_length (Or.inl hturn)
          exact Nat.lt_trans (ih next.length hnext h rfl) hnext
      | frame found next =>
          rw [read_frame_body hturn] at h
          cases h
          exact read_turn_length (Or.inr ⟨_, hturn⟩)

/-- The bodies that `read_frame` returns, called until it reports the end of the stream. -/
def readFrames (reader : List UInt8) : List (List UInt8) :=
  match hframe : readFrame reader with
  | .error _ => []
  | .ok (body, rest) =>
      have _hshorter := read_frame_length hframe
      body :: readFrames rest
termination_by reader.length

/-- No frame is read after an error. -/
theorem read_frames_error {reader : List UInt8} {error : IoError}
    (h : readFrame reader = .error error) : readFrames reader = [] := by
  rw [readFrames]
  split
  · rfl
  · rename_i hok
    rw [h] at hok
    cases hok

/-- A frame is read before the others. -/
theorem read_frames_ok {reader body rest : List UInt8} (h : readFrame reader = .ok (body, rest)) :
    readFrames reader = body :: readFrames rest := by
  rw [readFrames]
  split
  · rename_i herror
    rw [h] at herror
    cases herror
  · rename_i hok
    rw [h] at hok
    cases hok
    rfl

/-- A false start is passed over. -/
theorem read_frames_resync {reader rest : List UInt8} (h : readTurn reader = .resync rest) :
    readFrames reader = readFrames rest := by
  have hread := read_frame_resync h
  cases hrest : readFrame rest with
  | error error => rw [read_frames_error (hread.trans hrest), read_frames_error hrest]
  | ok next => rw [read_frames_ok (hread.trans hrest), read_frames_ok hrest]

/-! ## The push/pull reader -/

namespace FrameDecoder

/-- Pull until nothing is left. -/
def drain (self : FrameDecoder) : FrameDecoder × List (List UInt8) :=
  match hpull : self.pull with
  | (self', none) => (self', [])
  | (self', some body) =>
      have _hshorter := pull_length hpull
      (self'.drain.1, body :: self'.drain.2)
termination_by self.ready.length

/-- Push every chunk and drain after each. -/
def receive (self : FrameDecoder) : List (List UInt8) → FrameDecoder × List (List UInt8)
  | [] => (self, [])
  | chunk :: chunks =>
      let (self, bodies) := (self.push chunk).drain
      let (self, rest) := self.receive chunks
      (self, bodies ++ rest)

/-- A drain takes all bodies that are ready. -/
theorem drain_eq (self : FrameDecoder) : self.drain = ({ self with ready := [] }, self.ready) := by
  obtain ⟨state, body, ready⟩ := self
  induction ready with
  | nil =>
      rw [drain]
      rfl
  | cons first ready ih =>
      rw [drain]
      show ((drain ⟨state, body, ready⟩).1, first :: (drain ⟨state, body, ready⟩).2) = _
      rw [ih]

/-- Joined chunks are pushed one after the other. -/
theorem push_append (self : FrameDecoder) (left right : List UInt8) :
    self.push (left ++ right) = (self.push left).push right :=
  List.foldl_append

/-- A chunk is pushed byte by byte. -/
theorem push_cons (self : FrameDecoder) (byte : UInt8) (chunk : List UInt8) :
    self.push (byte :: chunk) = (self.pushByte byte).push chunk := rfl

/-- Pulled bodies do not influence what is pushed later. -/
theorem push_ready (self : FrameDecoder) (chunk : List UInt8) :
    self.push chunk =
      { FrameDecoder.push { self with ready := [] } chunk with
        ready := self.ready ++ (FrameDecoder.push { self with ready := [] } chunk).ready } := by
  induction chunk generalizing self with
  | nil => simp [push]
  | cons byte chunk ih =>
      have hbyte : self.pushByte byte =
          { FrameDecoder.pushByte { self with ready := [] } byte with
            ready := self.ready ++
              (FrameDecoder.pushByte { self with ready := [] } byte).ready } := by
        unfold pushByte
        cases self.state with
        | seekingStart1 => dsimp only; split <;> simp
        | seekingStart2 => dsimp only; split <;> [simp; split <;> simp]
        | readingLenHigh => simp
        | readingLenLow high => dsimp only; split <;> [simp; split <;> simp]
        | readingBody remaining => dsimp only; split <;> simp
      rw [push_cons, push_cons, hbyte, ih, ih (pushByte { self with ready := [] } byte)]
      simp

/-- The bodies of a chunked stream are those of the whole stream. -/
theorem receive_eq (self : FrameDecoder) (hready : self.ready = []) (chunks : List (List UInt8)) :
    self.receive chunks =
      ({ self.push chunks.flatten with ready := [] }, (self.push chunks.flatten).ready) := by
  induction chunks generalizing self with
  | nil =>
      obtain ⟨state, body, ready⟩ := self
      subst hready
      rfl
  | cons chunk chunks ih =>
      rw [receive, drain_eq]
      dsimp only
      rw [ih _ rfl, List.flatten_cons, push_append, push_ready (self.push chunk)]

/-! ## Runs of the state machine -/

variable {ready : List (List UInt8)} {reader rest : List UInt8}

/-- The decoder between two frames. -/
def idle (ready : List (List UInt8)) : FrameDecoder := ⟨.seekingStart1, [], ready⟩

/-- The incremental decoder seeks the first start byte like the blocking one. -/
theorem push_seek_start1 :
    (idle ready).push reader = match seekStart1 reader with
      | none => idle ready
      | some rest => FrameDecoder.push ⟨.seekingStart2, [], ready⟩ rest := by
  induction reader with
  | nil => rfl
  | cons byte reader ih =>
      rw [push_cons, seekStart1]
      by_cases hbyte : byte = start1
      · rw [if_pos hbyte]
        simp [pushByte, idle, hbyte]
      · rw [if_neg hbyte, ← ih]
        simp [pushByte, idle, hbyte]

/-- The incremental decoder seeks the second start byte like the blocking one. -/
theorem push_seek_start2 :
    FrameDecoder.push ⟨.seekingStart2, [], ready⟩ reader = match seekStart2 reader with
      | none => ⟨.seekingStart2, [], ready⟩
      | some (false, rest) => (idle ready).push rest
      | some (true, rest) => FrameDecoder.push ⟨.readingLenHigh, [], ready⟩ rest := by
  induction reader with
  | nil => rfl
  | cons byte reader ih =>
      rw [push_cons, seekStart2]
      by_cases hstart2 : byte = start2
      · rw [if_pos hstart2]
        simp [pushByte, hstart2]
      · rw [if_neg hstart2]
        by_cases hstart1 : byte = start1
        · have hdiffer : start1 ≠ start2 := by decide
          rw [if_neg (not_not.mpr hstart1), ← ih]
          simp [pushByte, hstart1, hdiffer]
        · rw [if_pos hstart1]
          simp [pushByte, idle, hstart2, hstart1]

/-- A body is collected byte by byte. -/
theorem push_reading_body (body : List UInt8) {remaining : Nat} (hremaining : 0 < remaining) :
    FrameDecoder.push ⟨.readingBody remaining, body, ready⟩ reader =
      if reader.length < remaining then
        ⟨.readingBody (remaining - reader.length), body ++ reader, ready⟩
      else (idle (ready ++ [body ++ reader.take remaining])).push (reader.drop remaining) := by
  induction reader generalizing body remaining with
  | nil => simp [push, hremaining]
  | cons byte reader ih =>
      rw [push_cons]
      by_cases hlast : remaining = 1
      · subst hlast
        simp [pushByte, idle]
      · have hbyte : pushByte ⟨.readingBody remaining, body, ready⟩ byte =
            ⟨.readingBody (remaining - 1), body ++ [byte], ready⟩ := by
          simp [pushByte, hlast]
        obtain ⟨fewer, rfl⟩ : ∃ fewer, remaining = fewer + 1 := ⟨remaining - 1, by omega⟩
        rw [hbyte, Nat.add_sub_cancel, ih _ (by omega)]
        simp [List.append_assoc]

/-- The two length bytes decide what comes next. -/
theorem push_length (high low : UInt8) :
    FrameDecoder.push ⟨.readingLenHigh, [], ready⟩ (high :: low :: reader) =
      if maxDeviceApiFrameLen < (u16OfBe [high, low]).toNat then (idle ready).push reader
      else if (u16OfBe [high, low]).toNat = 0 then (idle (ready ++ [[]])).push reader
      else FrameDecoder.push ⟨.readingBody (u16OfBe [high, low]).toNat, [], ready⟩ reader := by
  rw [push_cons, push_cons]
  simp only [pushByte]
  generalize (u16OfBe [high, low]).toNat = len
  by_cases hzero : len = 0
  · subst hzero
    simp [idle]
  · rw [if_neg hzero]
    split <;> simp [idle]

/-- One turn of the blocking reader, on the state machine. -/
theorem push_turn (ready : List (List UInt8)) (reader : List UInt8) :
    match readTurn reader with
    | .endOfStream => ((idle ready).push reader).ready = ready
    | .resync rest => (idle ready).push reader = (idle ready).push rest
    | .frame body rest => (idle ready).push reader = (idle (ready ++ [body])).push rest := by
  rw [push_seek_start1, readTurn]
  cases seekStart1 reader with
  | none => rfl
  | some afterStart1 =>
      dsimp only
      -- an input that ends within a header leaves both of them waiting
      rw [push_seek_start2]
      match seekStart2 afterStart1 with
      | none => rfl
      | some (false, rest) => rfl
      | some (true, []) => rfl
      | some (true, [_]) => rfl
      | some (true, high :: low :: afterLen) =>
          have hlen : readExact 2 (high :: low :: afterLen) = some ([high, low], afterLen) :=
            read_exact_eq_some_iff.mpr ⟨rfl, rfl⟩
          dsimp only
          rw [hlen, push_length]
          dsimp only
          generalize (u16OfBe [high, low]).toNat = len
          -- both skip a length that is too large, and wait for the body of any other
          by_cases hlarge : maxDeviceApiFrameLen < len
          · rw [if_pos hlarge, if_pos hlarge]
          · rw [if_neg hlarge, if_neg hlarge]
            by_cases hzero : len = 0
            · subst hzero
              rw [if_pos rfl]
              rfl
            · rw [if_neg hzero, push_reading_body _ (Nat.pos_of_ne_zero hzero), readExact]
              by_cases hshort : afterLen.length < len
              · rw [if_pos hshort, if_pos hshort]
              · rw [if_neg hshort, if_neg hshort]
                rfl

/-- What the decoder has ready is what the blocking reader returns. -/
theorem push_read_frames (ready : List (List UInt8)) (reader : List UInt8) :
    ((idle ready).push reader).ready = ready ++ readFrames reader := by
  induction hlength : reader.length using Nat.strong_induction_on generalizing reader ready with
  | _ length ih =>
      subst hlength
      have hturn := push_turn ready reader
      cases hcase : readTurn reader with
      | endOfStream =>
          rw [hcase] at hturn
          rw [hturn, read_frames_error (read_frame_end hcase), List.append_nil]
      | resync rest =>
          rw [hcase] at hturn
          rw [hturn, ih _ (read_turn_length (Or.inl hcase)) _ _ rfl, read_frames_resync hcase]
      | frame body rest =>
          rw [hcase] at hturn
          rw [hturn, ih _ (read_turn_length (Or.inr ⟨_, hcase⟩)) _ _ rfl,
            read_frames_ok (read_frame_body hcase), List.append_assoc, List.singleton_append]

/-! ## Trailing bytes -/

/-- The body buffer is in use only while a body is read. -/
def Tidy (self : FrameDecoder) : Prop :=
  (∀ remaining, self.state ≠ .readingBody remaining) → self.body = []

/-- A byte keeps the decoder tidy. -/
theorem Tidy.push_byte {self : FrameDecoder} (h : self.Tidy) (byte : UInt8) :
    (self.pushByte byte).Tidy := by
  obtain ⟨state, body, pulled⟩ := self
  intro hstate
  cases state with
  | readingBody remaining =>
      unfold pushByte at hstate ⊢
      dsimp only at hstate ⊢
      split at hstate
      · rename_i hlast
        rw [if_pos hlast]
      · exact absurd rfl (hstate _)
  | seekingStart1 | seekingStart2 | readingLenHigh | readingLenLow =>
      have hbody : body = [] := h fun _ => by simp
      unfold pushByte
      dsimp only
      repeat' split
      all_goals first | exact hbody | rfl

/-- A chunk keeps the decoder tidy. -/
theorem Tidy.push {self : FrameDecoder} (h : self.Tidy) (chunk : List UInt8) :
    (self.push chunk).Tidy := by
  induction chunk generalizing self with
  | nil => exact h
  | cons byte chunk ih => exact ih (h.push_byte byte)

/-- A decoder that looks for a frame is idle. -/
theorem push_eq_idle {stream : List UInt8} (h : (new.push stream).state = .seekingStart1) :
    new.push stream = idle (new.push stream).ready := by
  have hnew : new.Tidy := fun _ => rfl
  have hbody : (new.push stream).body = [] := hnew.push stream fun remaining hstate => by
    rw [h] at hstate
    cases hstate
  generalize new.push stream = decoder at h hbody ⊢
  obtain ⟨state, body, pulled⟩ := decoder
  subst h hbody
  rfl

end FrameDecoder

/-- The header of a frame declares the length of its body. -/
theorem exists_framed_header {body : List UInt8} (h : body.length ≤ maxDeviceApiFrameLen) :
    ∃ high low, framed body = start1 :: start2 :: high :: low :: body ∧
      (u16OfBe [high, low]).toNat = body.length := by
  obtain ⟨high, low, hheader⟩ : ∃ high low, u16Be (UInt16.ofNat body.length) = [high, low] :=
    ⟨_, _, rfl⟩
  refine ⟨high, low, ?_, ?_⟩
  · rw [framed, hheader]
    rfl
  · rw [← hheader, u16_of_be_u16_be]
    exact UInt16.toNat_ofNat_of_lt' (Nat.lt_of_le_of_lt h (by decide))

/-- The beginning of a frame is not a frame. -/
theorem read_turn_framed_take {body : List UInt8} (hbody : body.length ≤ maxDeviceApiFrameLen)
    {cut : Nat} (hcut : cut < (framed body).length) :
    readTurn ((framed body).take cut) = .endOfStream := by
  obtain ⟨high, low, hframed, hlen⟩ := exists_framed_header hbody
  rw [hframed, List.length_cons, List.length_cons, List.length_cons, List.length_cons] at hcut
  rw [hframed]
  match cut, hcut with
  | 0, _ => rfl
  | 1, _ => rfl
  | 2, _ => rfl
  | 3, _ => rfl
  | cut + 4, hcut =>
      have hseek1 : seekStart1 (start1 :: start2 :: high :: low :: body.take cut) =
          some (start2 :: high :: low :: body.take cut) := if_pos rfl
      have hseek2 : seekStart2 (start2 :: high :: low :: body.take cut) =
          some (true, high :: low :: body.take cut) := if_pos rfl
      have hread : readExact 2 (high :: low :: body.take cut) = some ([high, low], body.take cut) :=
        read_exact_eq_some_iff.mpr ⟨rfl, rfl⟩
      have hshort : readExact body.length (body.take cut) = none := by
        rw [readExact, if_pos]
        rw [List.length_take]
        omega
      show readTurn (start1 :: start2 :: high :: low :: body.take cut) = .endOfStream
      rw [readTurn, hseek1]
      dsimp only
      rw [hseek2]
      dsimp only
      rw [hread]
      dsimp only
      rw [hlen, if_neg (Nat.not_lt.mpr hbody), hshort]

/-- A body that is not too long, and no other, is written framed. -/
theorem write_frame_eq_ok_iff {writer body written : List UInt8} :
    writeFrame writer body = .ok written ↔
      body.length ≤ maxDeviceApiFrameLen ∧ written = writer ++ framed body := by
  unfold writeFrame
  split
  · rename_i hlong
    simp [Nat.not_le.mpr hlong]
  · rename_i hshort
    simp [Nat.not_lt.mp hshort, eq_comm]

/-- The two readers return the same bodies however the stream is cut into chunks, and the beginning
of a frame at its end adds none. -/
theorem readers_agree :
    (∀ chunks : List (List UInt8),
      (FrameDecoder.new.receive chunks).2 = readFrames chunks.flatten) ∧
    ∀ (stream body written : List UInt8) (cut : Nat) (chunks : List (List UInt8)),
      (FrameDecoder.new.push stream).state = .seekingStart1 → writeFrame [] body = .ok written →
      cut < written.length → chunks.flatten = stream ++ written.take cut →
      readFrames chunks.flatten = readFrames stream ∧
        (FrameDecoder.new.receive chunks).2 = readFrames stream := by
  have hagree : ∀ chunks : List (List UInt8),
      (FrameDecoder.new.receive chunks).2 = readFrames chunks.flatten := by
    intro chunks
    rw [FrameDecoder.receive_eq _ rfl]
    exact FrameDecoder.push_read_frames [] chunks.flatten
  refine ⟨hagree, fun stream body written cut chunks hidle hwrite hcut hchunks => ?_⟩
  obtain ⟨hbody, rfl⟩ := write_frame_eq_ok_iff.mp hwrite
  rw [List.nil_append] at hcut hchunks
  have htrailing : readFrames (stream ++ (framed body).take cut) = readFrames stream := by
    have hwhole := FrameDecoder.push_read_frames [] (stream ++ (framed body).take cut)
    have hstream := FrameDecoder.push_read_frames [] stream
    have hturn := FrameDecoder.push_turn (FrameDecoder.new.push stream).ready
      ((framed body).take cut)
    rw [read_turn_framed_take hbody hcut] at hturn
    rw [← FrameDecoder.push_eq_idle hidle] at hturn
    rw [FrameDecoder.push_append] at hwhole
    rw [List.nil_append] at hwhole hstream
    rw [← hwhole, ← hstream]
    exact hturn
  rw [hagree, hchunks]
  exact ⟨htrailing, htrailing⟩

/-- A stray byte, a bare `START1`, a frame and the beginning of another one, in three chunks. -/
theorem readers_agree_sample :
    (FrameDecoder.new.receive [[0, 0x94, 0x94], [0xc3, 0, 1, 7, 0x94], [0xc3, 0, 2, 2]]).2 =
      readFrames [0, 0x94, 0x94, 0xc3, 0, 1, 7] :=
  (readers_agree.2 [0, 0x94, 0x94, 0xc3, 0, 1, 7] [2, 3] (framed [2, 3]) 5 _ (by decide) (by decide)
    (by decide) (by decide)).2

end LatentMesh.Meshtastic
