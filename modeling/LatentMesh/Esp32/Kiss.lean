import Mathlib.Data.List.Forall2
import LatentMesh.Esp32.Packet

/-!
# KISS framing

`lm_air_kiss.c`: the encoder with its output capacity, and the decoder that is fed byte by byte.
What the encoder writes comes out of the decoder again, whatever the payloads are
(`kiss_round_trip`).
-/

namespace LatentMesh.Esp32

/-- `LM_KISS_FEND`. -/
def lmKissFend : UInt8 := 0xc0

/-- `LM_KISS_FESC`. -/
def lmKissFesc : UInt8 := 0xdb

/-- `LM_KISS_TFEND`. -/
def lmKissTfend : UInt8 := 0xdc

/-- `LM_KISS_TFESC`. -/
def lmKissTfesc : UInt8 := 0xdd

/-- `LM_KISS_CMD_DATA`. -/
def lmKissCmdData : UInt8 := 0x00

/-! ## The encoder -/

/-- `append_escaped`, on the bytes written so far. -/
def appendEscaped (capacity : Nat) (out : List UInt8) (byte : UInt8) : Option (List UInt8) :=
  if byte = lmKissFend ∨ byte = lmKissFesc then
    if capacity < out.length + 2 then none
    else some (out ++ [lmKissFesc, if byte = lmKissFend then lmKissTfend else lmKissTfesc])
  else if capacity < out.length + 1 then none
  else some (out ++ [byte])

/-- The bytes that `lm_kiss_encode` writes. -/
def lmKissEncode (port : UInt8) (payload : List UInt8) (outCapacity : Nat) :
    Option (List UInt8) :=
  if 15 < port ∨ payload = [] ∨ outCapacity < 3 then none
  else do
    let out ← appendEscaped outCapacity [lmKissFend] (port <<< 4)
    let out ← payload.foldlM (appendEscaped outCapacity) out
    if outCapacity ≤ out.length then none else some (out ++ [lmKissFend])

/-- How a byte stands in a frame. -/
def escape (byte : UInt8) : List UInt8 :=
  if byte = lmKissFend then [lmKissFesc, lmKissTfend]
  else if byte = lmKissFesc then [lmKissFesc, lmKissTfesc]
  else [byte]

/-- A data frame of a port. -/
def kissFrame (port : UInt8) (payload : List UInt8) : List UInt8 :=
  lmKissFend :: (escape (port <<< 4) ++ payload.flatMap escape ++ [lmKissFend])

variable {capacity : Nat} {out stream payload : List UInt8} {byte port : UInt8}

/-- A byte is escaped to one or two bytes. -/
theorem escape_length (byte : UInt8) : 1 ≤ (escape byte).length ∧ (escape byte).length ≤ 2 := by
  unfold escape
  split
  · exact ⟨by decide, Nat.le_refl _⟩
  · split
    · exact ⟨by decide, Nat.le_refl _⟩
    · exact ⟨Nat.le_refl _, by simp only [List.length_singleton]; decide⟩

/-- A byte is appended when there is room for it. -/
theorem append_escaped_eq_some_iff :
    appendEscaped capacity out byte = some stream ↔
      stream = out ++ escape byte ∧ stream.length ≤ capacity := by
  have hroom (bytes : List UInt8) (h : escape byte = bytes) :
      (if capacity < out.length + bytes.length then none else some (out ++ bytes)) = some stream ↔
        stream = out ++ escape byte ∧ stream.length ≤ capacity := by
    rw [h, Option.ite_none_left_eq_some, Option.some.injEq]
    constructor
    · rintro ⟨hfits, rfl⟩
      exact ⟨rfl, by rw [List.length_append]; omega⟩
    · rintro ⟨rfl, hfits⟩
      rw [List.length_append] at hfits
      exact ⟨by omega, rfl⟩
  unfold appendEscaped
  by_cases hfend : byte = lmKissFend
  · rw [if_pos (Or.inl hfend), if_pos hfend]
    exact hroom [_, _] (if_pos hfend)
  · by_cases hfesc : byte = lmKissFesc
    · rw [if_pos (Or.inr hfesc), if_neg hfend]
      exact hroom [_, _] ((if_neg hfend).trans (if_pos hfesc))
    · rw [if_neg (not_or.mpr ⟨hfend, hfesc⟩)]
      exact hroom [_] ((if_neg hfend).trans (if_neg hfesc))

/-- A payload is appended escaped when it fits. -/
theorem append_payload_eq_some_iff (hout : out.length ≤ capacity) :
    payload.foldlM (appendEscaped capacity) out = some stream ↔
      stream = out ++ payload.flatMap escape ∧ stream.length ≤ capacity := by
  induction payload generalizing out with
  | nil =>
      rw [List.foldlM_nil, List.flatMap_nil, List.append_nil]
      constructor
      · intro h
        cases h
        exact ⟨rfl, hout⟩
      · rintro ⟨rfl, -⟩
        rfl
  | cons byte payload ih =>
      rw [List.foldlM_cons, List.flatMap_cons, ← List.append_assoc]
      constructor
      · intro h
        obtain ⟨next, hnext, h⟩ := Option.bind_eq_some_iff.mp h
        obtain ⟨rfl, hfits⟩ := append_escaped_eq_some_iff.mp hnext
        exact (ih hfits).mp h
      · rintro ⟨rfl, hfits⟩
        have hnext : (out ++ escape byte).length ≤ capacity := by
          rw [List.length_append] at hfits
          omega
        exact Option.bind_eq_some_iff.mpr
          ⟨_, append_escaped_eq_some_iff.mpr ⟨rfl, hnext⟩, (ih hnext).mpr ⟨rfl, hfits⟩⟩

/-- The length of a frame. -/
theorem kiss_frame_length (port : UInt8) (payload : List UInt8) :
    (kissFrame port payload).length =
      (escape (port <<< 4)).length + (payload.flatMap escape).length + 2 := by
  simp only [kissFrame, List.length_cons, List.length_append, List.length_nil]

/-- Escaping at most doubles the length. -/
theorem flat_map_escape_length (payload : List UInt8) :
    payload.length ≤ (payload.flatMap escape).length ∧
      (payload.flatMap escape).length ≤ 2 * payload.length := by
  induction payload with
  | nil => exact ⟨Nat.le_refl _, Nat.le_refl _⟩
  | cons byte payload ih =>
      obtain ⟨hmin, hmax⟩ := escape_length byte
      rw [List.flatMap_cons, List.length_append, List.length_cons]
      omega

/-- The encoder writes the frame if it fits. -/
theorem kiss_encode_eq_some_iff :
    lmKissEncode port payload capacity = some stream ↔
      port ≤ 15 ∧ payload ≠ [] ∧ stream = kissFrame port payload ∧ stream.length ≤ capacity := by
  unfold lmKissEncode
  by_cases hlarge : 15 < port
  · rw [if_pos (Or.inl hlarge)]
    exact iff_of_false (fun h => by cases h) fun h => UInt8.not_le.mpr hlarge h.1
  have hport := UInt8.not_lt.mp hlarge
  by_cases hempty : payload = []
  · rw [if_pos (Or.inr (Or.inl hempty))]
    exact iff_of_false (fun h => by cases h) fun h => h.2.1 hempty
  rw [and_iff_right hport, and_iff_right hempty]
  have hbytes := (flat_map_escape_length payload).1
  have hsome := List.length_pos_iff.mpr hempty
  have hcommand := (escape_length (port <<< 4)).1
  by_cases hsmall : capacity < 3
  · rw [if_pos (Or.inr (Or.inr hsmall))]
    refine iff_of_false (fun h => by cases h) ?_
    rintro ⟨rfl, hfits⟩
    rw [kiss_frame_length] at hfits
    omega
  rw [if_neg (by simp only [not_or]; exact ⟨hlarge, hempty, hsmall⟩)]
  constructor
  · intro h
    obtain ⟨opened, hopened, h⟩ := Option.bind_eq_some_iff.mp h
    obtain ⟨filled, hfilled, h⟩ := Option.bind_eq_some_iff.mp h
    obtain ⟨rfl, hroom⟩ := append_escaped_eq_some_iff.mp hopened
    obtain ⟨rfl, -⟩ := (append_payload_eq_some_iff hroom).mp hfilled
    rw [Option.ite_none_left_eq_some, Option.some.injEq] at h
    obtain ⟨hlast, rfl⟩ := h
    exact ⟨rfl, by rw [List.length_append, List.length_singleton]; omega⟩
  · rintro ⟨rfl, hfits⟩
    rw [kiss_frame_length] at hfits
    refine Option.bind_eq_some_iff.mpr ⟨_, append_escaped_eq_some_iff.mpr ⟨rfl, ?_⟩, ?_⟩
    · rw [List.length_append, List.length_singleton]
      omega
    refine Option.bind_eq_some_iff.mpr ⟨_, (append_payload_eq_some_iff ?_).mpr ⟨rfl, ?_⟩, ?_⟩
    · rw [List.length_append, List.length_singleton]
      omega
    · simp only [List.length_append, List.length_singleton]
      omega
    · rw [if_neg]
      · rfl
      · simp only [List.length_append, List.length_singleton]
        omega

/-- A capacity for every payload of this length. -/
theorem kiss_encode_of_capacity (hport : port ≤ 15) (hempty : payload ≠ [])
    (hroom : 2 * payload.length + 4 ≤ capacity) :
    lmKissEncode port payload capacity = some (kissFrame port payload) := by
  refine kiss_encode_eq_some_iff.mpr ⟨hport, hempty, rfl, ?_⟩
  have hcommand := (escape_length (port <<< 4)).2
  have hbytes := (flat_map_escape_length payload).2
  rw [kiss_frame_length]
  omega

/-! ## The decoder -/

/-- `lm_kiss_decoder_t`. The `len` bytes are its `data`. -/
structure LmKissDecoder where
  inFrame : Bool
  escaped : Bool
  overflow : Bool
  commandSeen : Bool
  command : UInt8
  data : List UInt8
  deriving DecidableEq, Repr

/-- What a call of `lm_kiss_decoder_feed` reports: 0, -1, or 1 with the port and the packet. -/
inductive KissResult where
  | noFrame
  | rejected
  | frame (port : UInt8) (packet : LmAirPacket)
  deriving DecidableEq, Repr

namespace LmKissDecoder

/-- `lm_kiss_decoder_reset`. -/
def reset : LmKissDecoder := ⟨false, false, false, false, 0, []⟩

/-- What `finish` leaves behind: the delimiter may open the next frame. -/
def opened : LmKissDecoder := { reset with inFrame := true }

/-- `finish`. -/
def finish (self : LmKissDecoder) : LmKissDecoder × KissResult :=
  if self.overflow ∨ ¬ self.commandSeen ∨ self.data = [] then
    (opened, if self.overflow then .rejected else .noFrame)
  else if self.command &&& 0x0f ≠ lmKissCmdData then (opened, .noFrame)
  else
    (opened, .frame (self.command >>> 4)
      { data := self.data
        sourceLink := 0xff
        flags := lmAirPayloadPublicCodec })

/-- A byte that is not escaped any more: the command or a byte of the data. -/
def store (self : LmKissDecoder) (byte : UInt8) : LmKissDecoder × KissResult :=
  if ¬ self.commandSeen then ({ self with command := byte, commandSeen := true }, .noFrame)
  else if lmAirMaxFrameSize ≤ self.data.length then ({ self with overflow := true }, .rejected)
  else ({ self with data := self.data ++ [byte] }, .noFrame)

/-- `lm_kiss_decoder_feed`. -/
def feed (self : LmKissDecoder) (byte : UInt8) : LmKissDecoder × KissResult :=
  if byte = lmKissFend then
    if ¬ self.inFrame then ({ self with inFrame := true, data := [] }, .noFrame)
    else self.finish
  else if ¬ self.inFrame ∨ self.overflow then (self, .noFrame)
  else if self.escaped then
    if byte = lmKissTfend then { self with escaped := false }.store lmKissFend
    else if byte = lmKissTfesc then { self with escaped := false }.store lmKissFesc
    else ({ self with escaped := false, overflow := true }, .rejected)
  else if byte = lmKissFesc then ({ self with escaped := true }, .noFrame)
  else self.store byte

/-- Feed a stream: what the calls report, apart from those without a frame. -/
def feedAll (self : LmKissDecoder) : List UInt8 → LmKissDecoder × List KissResult
  | [] => (self, [])
  | byte :: stream =>
      match self.feed byte with
      | (next, .noFrame) => next.feedAll stream
      | (next, result) => ((next.feedAll stream).1, result :: (next.feedAll stream).2)

variable {self next : LmKissDecoder}

/-- A byte that completes no frame is passed over. -/
theorem feed_all_quiet (h : self.feed byte = (next, .noFrame)) (stream : List UInt8) :
    self.feedAll (byte :: stream) = next.feedAll stream := by
  rw [feedAll, h]

/-- Outside a frame the decoder waits for a delimiter. -/
theorem feed_all_garbage (hgarbage : lmKissFend ∉ stream) (rest : List UInt8) :
    reset.feedAll (stream ++ rest) = reset.feedAll rest := by
  induction stream with
  | nil => rfl
  | cons byte stream ih =>
      obtain ⟨hbyte, hstream⟩ := not_or.mp (mt List.mem_cons.mpr hgarbage)
      have hfeed : reset.feed byte = (reset, .noFrame) := by
        rw [feed, if_neg (Ne.symm hbyte), if_pos (Or.inl (by decide))]
      rw [List.cons_append, feed_all_quiet hfeed, ih hstream]

/-- A delimiter opens a frame, also when the one before has just closed another. -/
theorem feed_all_fend (hstart : self = reset ∨ self = opened) (stream : List UInt8) :
    self.feedAll (lmKissFend :: stream) = opened.feedAll stream := by
  rcases hstart with rfl | rfl
  · exact feed_all_quiet rfl stream
  · exact feed_all_quiet rfl stream

/-- An escaped byte is stored as it was. -/
theorem feed_all_escape (hframe : self.inFrame = true) (hescaped : self.escaped = false)
    (hoverflow : self.overflow = false) (hstore : self.store byte = (next, .noFrame))
    (stream : List UInt8) :
    self.feedAll (escape byte ++ stream) = next.feedAll stream := by
  have hcollect : ¬ (¬ self.inFrame = true ∨ self.overflow = true) := by
    rw [hframe, hoverflow]
    decide
  have hfesc : self.feed lmKissFesc = ({ self with escaped := true }, .noFrame) := by
    rw [feed, if_neg (by decide), if_neg hcollect, if_neg (by rw [hescaped]; decide), if_pos rfl]
  -- after the escape the decoder is as before
  have hback : { { self with escaped := true } with escaped := false } = self := by
    rw [← hescaped]
  have hcollect' : ¬ (¬ ({ self with escaped := true } : LmKissDecoder).inFrame = true ∨
      ({ self with escaped := true } : LmKissDecoder).overflow = true) := hcollect
  unfold escape
  split
  · rename_i hbyte
    subst hbyte
    refine (feed_all_quiet hfesc _).trans (feed_all_quiet ?_ _)
    rw [feed, if_neg (by decide), if_neg hcollect', if_pos rfl, if_pos rfl, hback, hstore]
  · rename_i hfend
    split
    · rename_i hbyte
      subst hbyte
      refine (feed_all_quiet hfesc _).trans (feed_all_quiet ?_ _)
      rw [feed, if_neg (by decide), if_neg hcollect', if_pos rfl, if_neg (by decide), if_pos rfl,
        hback, hstore]
    · rename_i hfesc
      refine feed_all_quiet ?_ _
      rw [feed, if_neg hfend, if_neg hcollect, if_neg (by rw [hescaped]; decide), if_neg hfesc,
        hstore]

/-- The decoder inside a frame, after the command. -/
def collecting (command : UInt8) (data : List UInt8) : LmKissDecoder :=
  ⟨true, false, false, true, command, data⟩

/-- The escaped bytes of a payload are collected. -/
theorem feed_all_payload {command : UInt8} {data : List UInt8}
    (hroom : data.length + payload.length ≤ lmAirMaxFrameSize) (rest : List UInt8) :
    (collecting command data).feedAll (payload.flatMap escape ++ rest) =
      (collecting command (data ++ payload)).feedAll rest := by
  induction payload generalizing data with
  | nil => rw [List.flatMap_nil, List.nil_append, List.append_nil]
  | cons byte payload ih =>
      rw [List.length_cons] at hroom
      have hstore : (collecting command data).store byte =
          (collecting command (data ++ [byte]), .noFrame) := by
        have hlength : ¬ lmAirMaxFrameSize ≤ (collecting command data).data.length := by
          show ¬ lmAirMaxFrameSize ≤ data.length
          omega
        rw [store, if_neg (show ¬ ¬ (collecting command data).commandSeen = true by
          simp only [collecting, not_true, not_false_iff]), if_neg hlength]
        rfl
      rw [List.flatMap_cons, List.append_assoc, feed_all_escape rfl rfl rfl hstore, ih,
        List.append_assoc, List.singleton_append]
      rw [List.length_append, List.length_singleton]
      omega

/-- The port stands in the upper half of the command and the data command in the lower half. -/
theorem command_of_port (hport : port ≤ 15) :
    (port <<< 4) &&& 0x0f = lmKissCmdData ∧ (port <<< 4) >>> 4 = port := by
  have hall : ∀ value < 16, (UInt8.ofNat value <<< 4) &&& 0x0f = lmKissCmdData ∧
      (UInt8.ofNat value <<< 4) >>> 4 = UInt8.ofNat value := by decide
  have hvalue := hall port.toNat (Nat.lt_succ_of_le (UInt8.le_iff_toNat_le.mp hport))
  rwa [UInt8.ofNat_toNat] at hvalue

/-- The delimiter behind a data frame hands it over. -/
theorem feed_fend_collecting (hport : port ≤ 15) (hempty : payload ≠ []) :
    (collecting (port <<< 4) payload).feed lmKissFend =
      (opened, .frame port ⟨payload, 0xff, lmAirPayloadPublicCodec⟩) := by
  obtain ⟨hdata, hupper⟩ := command_of_port hport
  have hframe : ¬ ((collecting (port <<< 4) payload).overflow = true ∨
      ¬ (collecting (port <<< 4) payload).commandSeen = true ∨
        (collecting (port <<< 4) payload).data = []) := by
    simp only [collecting, not_or, not_true, not_false_iff, hempty, Bool.false_eq_true, true_and]
  show finish _ = _
  have hcommand : ¬ (collecting (port <<< 4) payload).command &&& 0x0f ≠ lmKissCmdData :=
    not_not.mpr hdata
  rw [finish, if_neg hframe, if_neg hcommand]
  show (opened, KissResult.frame ((port <<< 4) >>> 4) _) = _
  rw [hupper]
  rfl

/-- A frame is handed over at its last byte, and nothing is reported before. -/
theorem feed_all_frame (hstart : self = reset ∨ self = opened) (hport : port ≤ 15)
    (hempty : payload ≠ []) (hfits : payload.length ≤ lmAirMaxFrameSize) (rest : List UInt8) :
    (self.feedAll (kissFrame port payload ++ rest)).2 =
      .frame port ⟨payload, 0xff, lmAirPayloadPublicCodec⟩ :: (opened.feedAll rest).2 := by
  have hcommand : opened.store (port <<< 4) = (collecting (port <<< 4) [], .noFrame) := rfl
  rw [kissFrame, List.cons_append, feed_all_fend hstart, List.append_assoc, List.append_assoc,
    feed_all_escape rfl rfl rfl hcommand, feed_all_payload (by rw [List.length_nil]; omega),
    List.nil_append, List.singleton_append, feedAll, feed_fend_collecting hport hempty]

end LmKissDecoder

/-- The encodings of frames, each with the capacity that it was given. -/
def Encodings (frames : List (UInt8 × List UInt8)) (streams : List (List UInt8)) : Prop :=
  List.Forall₂ (fun frame stream => ∃ capacity, lmKissEncode frame.1 frame.2 capacity = some stream)
    frames streams

namespace LmKissDecoder

/-- The frames of a stream, at its start or after a delimiter. -/
theorem feed_all_encodings {frames : List (UInt8 × List UInt8)} {streams : List (List UInt8)}
    {self : LmKissDecoder} (hstart : self = reset ∨ self = opened)
    (hframes : ∀ frame ∈ frames, frame.2.length ≤ lmAirMaxFrameSize)
    (hencoded : Encodings frames streams) :
    (self.feedAll streams.flatten).2 = frames.map fun frame =>
      .frame frame.1 ⟨frame.2, 0xff, lmAirPayloadPublicCodec⟩ := by
  induction hencoded generalizing self with
  | nil => rfl
  | @cons frame stream frames streams hfirst hrest ih =>
      obtain ⟨capacity, hfirst⟩ := hfirst
      obtain ⟨hport, hempty, rfl, -⟩ := kiss_encode_eq_some_iff.mp hfirst
      rw [List.flatten_cons, feed_all_frame hstart hport hempty
        (hframes frame List.mem_cons_self), List.map_cons]
      refine congrArg _ (ih (Or.inr rfl) fun other hmem => ?_)
      exact hframes other (List.mem_cons_of_mem _ hmem)

end LmKissDecoder

/-- Frames of 1 to 512 bytes are encoded when there is room for them, and a new decoder takes the
stream of their encodings apart again, also behind garbage that has no delimiter. -/
theorem kiss_round_trip (frames : List (UInt8 × List UInt8))
    (hframes : ∀ frame ∈ frames,
      frame.1 ≤ 15 ∧ frame.2 ≠ [] ∧ frame.2.length ≤ lmAirMaxFrameSize) :
    (∀ frame ∈ frames, ∀ capacity, 2 * frame.2.length + 4 ≤ capacity →
      (lmKissEncode frame.1 frame.2 capacity).isSome = true) ∧
    ∀ garbage streams, lmKissFend ∉ garbage → Encodings frames streams →
      (LmKissDecoder.reset.feedAll (garbage ++ streams.flatten)).2 = frames.map fun frame =>
        .frame frame.1 ⟨frame.2, 0xff, lmAirPayloadPublicCodec⟩ := by
  constructor
  · intro frame hmem capacity hroom
    obtain ⟨hport, hempty, -⟩ := hframes frame hmem
    rw [kiss_encode_of_capacity hport hempty hroom]
    rfl
  · intro garbage streams hgarbage hencoded
    rw [LmKissDecoder.feed_all_garbage hgarbage]
    exact LmKissDecoder.feed_all_encodings (Or.inl rfl)
      (fun frame hmem => (hframes frame hmem).2.2) hencoded

/-- Port 12, whose command is a delimiter, and a payload of special bytes; then port 0. -/
def sampleKissFrames : List (UInt8 × List UInt8) :=
  [(12, [0xc0, 0xdb, 0xdc, 0xdd]), (0, [0x2a])]

/-- The theorem at two frames behind some garbage. -/
theorem kiss_round_trip_sample :
    (LmKissDecoder.reset.feedAll ([0x2a, 0xdb] ++
      [[0xc0, 0xdb, 0xdc, 0xdb, 0xdc, 0xdb, 0xdd, 0xdc, 0xdd, 0xc0],
        [0xc0, 0x00, 0x2a, 0xc0]].flatten)).2 =
      [.frame 12 ⟨[0xc0, 0xdb, 0xdc, 0xdd], 0xff, 0x01⟩, .frame 0 ⟨[0x2a], 0xff, 0x01⟩] :=
  (kiss_round_trip sampleKissFrames (by decide)).2 _ _ (by decide)
    (.cons ⟨10, by decide⟩ (.cons ⟨4, by decide⟩ .nil))

end LatentMesh.Esp32
