import Mathlib.Data.List.Induction
import LatentMesh.Esp32.Kiss

/-!
# What the KISS decoder accepts

The bytes between two delimiters are a data frame when they are a command byte of a data command and
1 to 512 payload bytes, all of them escaped (`KissBody`). The decoder reports a frame at a delimiter
only, and it then has the command and the payload of the bytes since the delimiter before. But
`finish` does not look at `escaped`, so an escape that the delimiter cuts off is dropped without an
error: the decoder accepts its grammar except behind a data frame with one more `FESC`
(`kiss_grammar_iff`).
-/

namespace LatentMesh.Esp32

/-- The bytes between two delimiters are a data frame. -/
def KissBody (segment : List UInt8) (command : UInt8) (payload : List UInt8) : Prop :=
  segment = escape command ++ payload.flatMap escape ∧ command &&& 0x0f = lmKissCmdData ∧
    payload ≠ [] ∧ payload.length ≤ lmAirMaxFrameSize

/-- The bytes since the last delimiter of a stream. -/
def SinceDelimiter (stream segment : List UInt8) : Prop :=
  lmKissFend ∉ segment ∧ ∃ earlier, stream = earlier ++ lmKissFend :: segment

namespace LmKissDecoder

variable {self next : LmKissDecoder} {stream segment payload : List UInt8} {byte command : UInt8}

/-- The decoder after a stream. -/
def after (stream : List UInt8) : LmKissDecoder := (reset.feedAll stream).1

/-- Joined streams are fed part by part. -/
theorem feed_all_append (self : LmKissDecoder) (first second : List UInt8) :
    (self.feedAll (first ++ second)).1 = ((self.feedAll first).1.feedAll second).1 := by
  induction first generalizing self with
  | nil => rfl
  | cons byte first ih =>
      have hstep : ∀ rest,
          (self.feedAll (byte :: rest)).1 = ((self.feed byte).1.feedAll rest).1 := by
        intro rest
        rw [feedAll]
        split <;> rename_i h <;> rw [h]
      rw [List.cons_append, hstep, hstep, ih]

/-- A stream of one byte. -/
theorem feed_all_single (self : LmKissDecoder) (byte : UInt8) :
    (self.feedAll [byte]).1 = (self.feed byte).1 := by
  rw [feedAll]
  split <;> rename_i h <;> rw [h] <;> rfl

/-- The state after one more byte. -/
theorem after_concat (stream : List UInt8) (byte : UInt8) :
    after (stream ++ [byte]) = ((after stream).feed byte).1 := by
  rw [after, feed_all_append, feed_all_single]
  rfl

/-! ## What the decoder holds -/

/-- The bytes read since the delimiter, with their escapes removed. -/
def contents (self : LmKissDecoder) : List UInt8 :=
  if self.commandSeen then self.command :: self.data else []

/-- The decoder has read a segment: what it holds is the segment with its escapes removed, but for
an escape that is not finished. -/
structure Reads (decoder : LmKissDecoder) (segment : List UInt8) : Prop where
  framed : decoder.inFrame = true
  segment_eq : decoder.overflow = false →
    segment = decoder.contents.flatMap escape ++ if decoder.escaped then [lmKissFesc] else []
  unseen : decoder.commandSeen = false → decoder.data = []
  fits : decoder.data.length ≤ lmAirMaxFrameSize

/-- A decoder behind a delimiter has read nothing. -/
theorem opened_reads : opened.Reads [] where
  framed := rfl
  segment_eq _ := rfl
  unseen _ := rfl
  fits := Nat.zero_le _

/-- A byte is stored behind the contents. -/
theorem store_reads (h : self.Reads segment) (hoverflow : self.overflow = false)
    (hescaped : self.escaped = false) (byte : UInt8) :
    (self.store byte).1.Reads (segment ++ escape byte) := by
  obtain ⟨inFrame, escaped, overflow, commandSeen, command, data⟩ := self
  obtain ⟨hframe, hsegment, hunseen, hfits⟩ := h
  dsimp only at hframe hunseen hfits hoverflow hescaped
  subst hescaped hoverflow
  unfold store
  dsimp only
  cases commandSeen with
  | false =>
      obtain rfl := hunseen rfl
      refine ⟨hframe, fun _ => ?_, fun _ => rfl, hfits⟩
      rw [hsegment rfl]
      simp [contents]
  | true =>
      rw [if_neg (by decide)]
      split
      · exact ⟨hframe, fun hclear => (by cases hclear), fun hseen => (by cases hseen), hfits⟩
      · refine ⟨hframe, fun _ => ?_, fun hseen => (by cases hseen), ?_⟩
        · rw [hsegment rfl]
          simp [contents]
        · rw [List.length_append, List.length_singleton]
          omega

/-- The end of an escape is stored as the byte that it stands for. -/
theorem store_reads_escaped (h : self.Reads segment) (hoverflow : self.overflow = false)
    (hescaped : self.escaped = true) (byte : UInt8) (hend : escape command = [lmKissFesc, byte]) :
    ({ self with escaped := false }.store command).1.Reads (segment ++ [byte]) := by
  obtain ⟨hframe, hsegment, hunseen, hfits⟩ := h
  have hplain : ({ self with escaped := false } : LmKissDecoder).Reads
      (self.contents.flatMap escape) :=
    ⟨hframe, fun _ => (List.append_nil _).symm, hunseen, hfits⟩
  rw [hsegment hoverflow, hescaped, if_pos rfl, List.append_assoc, List.singleton_append, ← hend]
  exact store_reads hplain hoverflow rfl command

/-- One byte that is not a delimiter. -/
theorem Reads.feed (h : self.Reads segment) (hbyte : byte ≠ lmKissFend) :
    (self.feed byte).1.Reads (segment ++ [byte]) := by
  -- a frame that is lost says nothing about its bytes any more
  have hlost : ∀ next : LmKissDecoder, next.inFrame = true → next.overflow = true →
      next.commandSeen = self.commandSeen → next.data = self.data →
      next.Reads (segment ++ [byte]) := by
    intro next hframe hoverflow hseen hdata
    refine ⟨hframe, fun hclear => ?_, ?_, hdata ▸ h.fits⟩
    · rw [hoverflow] at hclear
      cases hclear
    · rw [hseen, hdata]
      exact h.unseen
  unfold LmKissDecoder.feed
  rw [if_neg hbyte]
  by_cases hoverflow : self.overflow = true
  · rw [if_pos (Or.inr hoverflow)]
    exact hlost _ h.framed hoverflow rfl rfl
  rw [if_neg (by rw [h.framed]; simpa using hoverflow)]
  rw [Bool.not_eq_true] at hoverflow
  by_cases hescaped : self.escaped = true
  · rw [if_pos hescaped]
    split
    · rename_i hend
      subst hend
      exact store_reads_escaped h hoverflow hescaped lmKissTfend rfl
    · split
      · rename_i hend
        subst hend
        exact store_reads_escaped h hoverflow hescaped lmKissTfesc rfl
      · -- any other byte behind an escape loses the frame
        exact hlost _ h.framed rfl rfl rfl
  · rw [if_neg hescaped]
    rw [Bool.not_eq_true] at hescaped
    split
    · rename_i hfesc
      subst hfesc
      refine ⟨h.framed, fun _ => ?_, h.unseen, h.fits⟩
      have hsegment := h.segment_eq hoverflow
      rw [hescaped, if_neg (by decide), List.append_nil] at hsegment
      rw [hsegment]
      rfl
    · rename_i hfesc
      have hplain : escape byte = [byte] := (if_neg hbyte).trans (if_neg hfesc)
      rw [← hplain]
      exact store_reads h hoverflow hescaped byte

/-! ## What a stream leaves in the decoder -/

/-- A delimiter opens a frame. -/
theorem feed_fend_opens (h : self = reset ∨ self.inFrame = true) :
    (self.feed lmKissFend).1 = opened := by
  rcases h with rfl | hframe
  · rfl
  · rw [feed, if_pos rfl, if_neg (by rw [hframe]; decide)]
    unfold finish
    split
    · rfl
    · split <;> rfl

/-- A decoder outside a frame is a new one. -/
theorem after_cases (stream : List UInt8) :
    after stream = reset ∧ lmKissFend ∉ stream ∨
      ∃ segment, SinceDelimiter stream segment ∧ (after stream).Reads segment := by
  induction stream using List.reverseRecOn with
  | nil => exact Or.inl ⟨rfl, List.not_mem_nil⟩
  | append_singleton stream byte ih =>
      rw [after_concat]
      by_cases hbyte : byte = lmKissFend
      · subst hbyte
        refine Or.inr ⟨[], ⟨List.not_mem_nil, stream, rfl⟩, ?_⟩
        rw [feed_fend_opens (ih.imp (fun h => h.1) fun ⟨_, _, hreads⟩ => hreads.framed)]
        exact opened_reads
      · rcases ih with ⟨hreset, hquiet⟩ | ⟨segment, ⟨hsegment, earlier, rfl⟩, hreads⟩
        · -- without a delimiter so far the decoder has not left its initial state
          left
          rw [hreset]
          refine ⟨?_, ?_⟩
          · rw [feed, if_neg hbyte, if_pos (Or.inl (by decide))]
          · rw [List.mem_append, List.mem_singleton, not_or]
            exact ⟨hquiet, fun heq => hbyte heq.symm⟩
        · refine Or.inr ⟨segment ++ [byte], ⟨?_, earlier, ?_⟩, hreads.feed hbyte⟩
          · rw [List.mem_append, List.mem_singleton, not_or]
            exact ⟨hsegment, fun heq => hbyte heq.symm⟩
          · rw [List.append_assoc, List.cons_append]

/-- Behind a data frame and an escape that is not finished. -/
theorem after_dangling (hsegment : SinceDelimiter stream (segment ++ [lmKissFesc]))
    (hbody : KissBody segment command payload) :
    after stream = { collecting command payload with escaped := true } := by
  obtain ⟨-, earlier, rfl⟩ := hsegment
  obtain ⟨rfl, -, -, hfits⟩ := hbody
  have hopened : after (earlier ++ [lmKissFend]) = opened := by
    rw [after_concat]
    refine feed_fend_opens ?_
    exact (after_cases earlier).imp (fun h => h.1) fun ⟨_, _, hreads⟩ => hreads.framed
  have hcommand : opened.store command = (collecting command [], .noFrame) := rfl
  rw [List.append_cons, after, feed_all_append, ← after, hopened, List.append_assoc,
    feed_all_escape rfl rfl rfl hcommand, feed_all_payload (by rw [List.length_nil]; omega),
    List.nil_append, feed_all_single]
  rfl

/-! ## What a frame says about the stream -/

/-- A frame is reported at a delimiter, with the command and the data that the decoder holds. -/
theorem feed_eq_frame {port : UInt8} {packet : LmAirPacket}
    (h : (self.feed byte).2 = .frame port packet) :
    byte = lmKissFend ∧ self.inFrame = true ∧ self.overflow = false ∧ self.commandSeen = true ∧
      self.data ≠ [] ∧ self.command &&& 0x0f = lmKissCmdData ∧ port = self.command >>> 4 ∧
      packet.data = self.data := by
  have hstore : ∀ (decoder : LmKissDecoder) (byte : UInt8),
      (decoder.store byte).2 ≠ .frame port packet := by
    intro decoder byte
    unfold store
    split
    · exact fun h => nomatch h
    · split <;> exact fun h => nomatch h
  unfold feed at h
  -- only the end of a frame is a delimiter, and all other bytes are stored or lose it
  by_cases hbyte : byte = lmKissFend
  · rw [if_pos hbyte] at h
    by_cases hframe : self.inFrame = true
    · rw [if_neg (not_not.mpr hframe)] at h
      unfold finish at h
      split at h
      · dsimp only at h
        split at h <;> cases h
      · rename_i hheld
        obtain ⟨hoverflow, hseen, hdata⟩ := not_or.mp hheld |>.imp_right not_or.mp
        split at h
        · cases h
        · rename_i hcommand
          cases h
          exact ⟨hbyte, hframe, Bool.not_eq_true _ ▸ hoverflow, not_not.mp hseen, hdata,
            not_not.mp hcommand, rfl, rfl⟩
    · rw [if_pos hframe] at h
      cases h
  · rw [if_neg hbyte] at h
    split at h
    · cases h
    split at h
    · split at h
      · exact absurd h (hstore _ _)
      · split at h
        · exact absurd h (hstore _ _)
        · cases h
    · split at h
      · cases h
      · exact absurd h (hstore _ _)

/-- A delimiter behind a data frame and an escape that is not finished hands the frame over. -/
theorem feed_fend_dangling (hbody : KissBody segment command payload) :
    (({ collecting command payload with escaped := true } : LmKissDecoder).feed lmKissFend).2 =
      .frame (command >>> 4) ⟨payload, 0xff, lmAirPayloadPublicCodec⟩ := by
  obtain ⟨-, hdata, hempty, -⟩ := hbody
  show (finish _).2 = _
  rw [finish, if_neg, if_neg]
  · rfl
  · exact not_not.mpr hdata
  · show ¬ (false = true ∨ ¬ true = true ∨ payload = [])
    simpa using hempty

end LmKissDecoder

/-! ## Escaping can be undone -/

/-- Escaped bytes tell the bytes. -/
theorem escape_append_inj {first second : UInt8} {rest rest' : List UInt8}
    (h : escape first ++ rest = escape second ++ rest') : first = second ∧ rest = rest' := by
  unfold escape at h
  by_cases hfend : first = lmKissFend <;> by_cases hfend' : second = lmKissFend <;>
    by_cases hfesc : first = lmKissFesc <;> by_cases hfesc' : second = lmKissFesc <;>
    simp_all [lmKissFesc, lmKissFend, lmKissTfend, lmKissTfesc]

/-- No escaped bytes end within an escape. -/
theorem flat_map_escape_ne (bytes bytes' : List UInt8) :
    bytes.flatMap escape ≠ bytes'.flatMap escape ++ [lmKissFesc] := by
  induction bytes' generalizing bytes with
  | nil =>
      intro h
      cases bytes with
      | nil => cases h
      | cons byte bytes =>
          rw [List.flatMap_cons, List.flatMap_nil, List.nil_append] at h
          generalize bytes.flatMap escape = rest at h
          unfold escape at h
          split at h
          · cases h
          · split at h
            · cases h
            · rename_i hfesc
              cases h
              exact hfesc rfl
  | cons byte' bytes' ih =>
      intro h
      cases bytes with
      | nil =>
          have hlength := congrArg List.length h
          simp at hlength
      | cons byte bytes =>
          rw [List.flatMap_cons, List.flatMap_cons, List.append_assoc] at h
          exact ih _ (escape_append_inj h).2

/-- No delimiter comes behind the last one. -/
theorem segment_eq_of_quiet {between segment segment' : List UInt8} (hquiet : lmKissFend ∉ segment)
    (h : lmKissFend :: segment = between ++ lmKissFend :: segment') : segment = segment' := by
  cases between with
  | nil => exact (List.cons.inj h).2
  | cons byte between =>
      rw [List.cons_append] at h
      obtain ⟨-, rfl⟩ := List.cons.inj h
      exact absurd (List.mem_append_right _ List.mem_cons_self) hquiet

/-- There is one segment since the last delimiter. -/
theorem SinceDelimiter.unique {stream segment segment' : List UInt8}
    (h : SinceDelimiter stream segment) (h' : SinceDelimiter stream segment') :
    segment = segment' := by
  obtain ⟨hquiet, earlier, rfl⟩ := h
  obtain ⟨hquiet', earlier', heq⟩ := h'
  rcases List.append_eq_append_iff.mp heq with ⟨between, -, hbetween⟩ | ⟨between, -, hbetween⟩
  · exact segment_eq_of_quiet hquiet hbetween
  · exact (segment_eq_of_quiet hquiet' hbetween).symm

/-! ## The grammar -/

/-- A call of the decoder keeps to the grammar: it returns a frame at a delimiter only, and then the
bytes since the delimiter before are a data frame with this port and payload. -/
def Grammatical (before : List UInt8) (byte : UInt8) : Prop :=
  ∀ port packet, ((LmKissDecoder.after before).feed byte).2 = .frame port packet →
    byte = lmKissFend ∧ ∃ segment command, SinceDelimiter before segment ∧
      KissBody segment command packet.data ∧ port = command >>> 4

/-- A stream ends with a data frame and one more byte, an escape that is not finished. -/
def Dangling (before : List UInt8) : Prop :=
  ∃ segment command payload, SinceDelimiter before (segment ++ [lmKissFesc]) ∧
    KissBody segment command payload

/-- A byte is against the grammar only if it ends a segment that leaves an escape open. -/
theorem grammatical_iff (before : List UInt8) (byte : UInt8) :
    Grammatical before byte ↔ (byte = lmKissFend → ¬ Dangling before) := by
  constructor
  · rintro hgrammar rfl ⟨segment, command, payload, hsince, hbody⟩
    have hframe : ((LmKissDecoder.after before).feed lmKissFend).2 =
        .frame (command >>> 4) ⟨payload, 0xff, lmAirPayloadPublicCodec⟩ := by
      rw [LmKissDecoder.after_dangling hsince hbody]
      exact LmKissDecoder.feed_fend_dangling hbody
    obtain ⟨-, segment', command', hsince', ⟨hsegment', -⟩, -⟩ := hgrammar _ _ hframe
    have hsegment := hbody.1
    rw [← hsince.unique hsince', hsegment] at hsegment'
    exact flat_map_escape_ne (command' :: payload) (command :: payload) hsegment'.symm
  · intro hclean port packet hframe
    obtain ⟨rfl, hopen, hoverflow, hseen, hempty, hcommand, rfl, hdata⟩ :=
      LmKissDecoder.feed_eq_frame hframe
    refine ⟨rfl, ?_⟩
    rcases LmKissDecoder.after_cases before with ⟨hreset, -⟩ | ⟨segment, hsince, hreads⟩
    · rw [hreset] at hopen
      cases hopen
    · have hsegment := hreads.segment_eq hoverflow
      rw [LmKissDecoder.contents, if_pos hseen, List.flatMap_cons] at hsegment
      cases hescaped : (LmKissDecoder.after before).escaped with
      | true =>
          -- the end of the frame does not look at `escaped`
          rw [hescaped, if_pos rfl] at hsegment
          exact absurd ⟨_, _, _, hsegment ▸ hsince, rfl, hcommand, hempty, hreads.fits⟩ (hclean rfl)
      | false =>
          rw [hescaped, if_neg (by decide), List.append_nil] at hsegment
          rw [hdata]
          exact ⟨segment, _, hsince, ⟨hsegment, hcommand, hempty, hreads.fits⟩, rfl⟩

/-- Every call of a stream keeps to the grammar, unless a delimiter of the stream comes behind a
data frame and an escape that is not finished. -/
theorem kiss_grammar_iff (stream : List UInt8) :
    (∀ before byte rest, stream = before ++ byte :: rest → Grammatical before byte) ↔
      ∀ before rest, stream = before ++ lmKissFend :: rest → ¬ Dangling before := by
  constructor
  · intro hgrammar before rest hstream
    exact (grammatical_iff before lmKissFend).mp (hgrammar _ _ _ hstream) rfl
  · intro hclean before byte rest hstream
    rw [grammatical_iff]
    rintro rfl
    exact hclean _ _ hstream

/-- The delimiter of `c0 00 41 db c0` cuts an escape off, and the byte before it is delivered. -/
theorem kiss_delivers_dangling :
    ((LmKissDecoder.after [0xc0, 0x00, 0x41, 0xdb]).feed 0xc0).2 =
        .frame 0 ⟨[0x41], 0xff, lmAirPayloadPublicCodec⟩ ∧
      ¬ Grammatical [0xc0, 0x00, 0x41, 0xdb] 0xc0 := by
  refine ⟨by decide, fun hgrammar => (grammatical_iff _ _).mp hgrammar rfl ?_⟩
  exact ⟨[0x00, 0x41], 0x00, [0x41], ⟨by decide, [], rfl⟩, rfl, rfl, by decide, by decide⟩

end LatentMesh.Esp32
