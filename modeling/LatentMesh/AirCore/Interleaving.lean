import Mathlib.Algebra.Order.BigOperators.Group.List
import Mathlib.Data.List.Induction
import LatentMesh.AirCore.Contexts
import LatentMesh.Lib.Transition

/-!
# Reassembly of interleaved messages

The frames of several messages arrive in any order, with duplicates of a message only before it is
complete (`Batch.Arrivals`). The table then holds the progress of every message that is in flight
(`Tracks`), a push answers with the message that its frame completes (`Tracks.push`), and so the
reassembler undoes the fragmenter (`Inverse`) exactly when the priorities fit in four bits
(`reassembly_inverse_iff`).
-/

namespace LatentMesh.AirCore

open LatentMesh.Lib

/-- A message that `fragment_message` has cut. -/
structure FragmentedMessage where
  info : FragmentMeta
  bytes : List UInt8
  frameMtu : Nat
  frames : List SparseRadioFrame
  fragmented : fragmentMessage info bytes frameMtu = .ok frames

namespace FragmentedMessage

/-- The key under which the frames of the message are collected. -/
def key (self : FragmentedMessage) : UInt16 × UInt16 := self.info.key

/-- The message as the reassembler should return it. -/
def reassembled (self : FragmentedMessage) : ReassembledMessage :=
  { toFragmentMeta := self.info, bytes := self.bytes }

/-- All frames of the message have arrived. -/
def Complete (self : FragmentedMessage) (arrived : List SparseRadioFrame) : Prop :=
  ∀ frame ∈ self.frames, frame ∈ arrived

/-- Some frame of the message has arrived. -/
def Started (self : FragmentedMessage) (arrived : List SparseRadioFrame) : Prop :=
  ∃ frame ∈ self.frames, frame ∈ arrived

instance (self : FragmentedMessage) (arrived : List SparseRadioFrame) :
    Decidable (self.Complete arrived) :=
  inferInstanceAs (Decidable (∀ _ ∈ _, _))

instance (self : FragmentedMessage) (arrived : List SparseRadioFrame) :
    Decidable (self.Started arrived) :=
  inferInstanceAs (Decidable (∃ _ ∈ _, _))

end FragmentedMessage

/-- Messages that fit into a table together. -/
structure Batch (config : ReassemblerConfig) where
  messages : List FragmentedMessage
  contexts : messages.length ≤ config.maxContexts
  distinct : Keyed.Distinct FragmentedMessage.key messages
  bytes : ∀ message ∈ messages, message.bytes.length ≤ config.maxMessageBytes
  fragments : ∀ message ∈ messages, message.frames.length ≤ config.maxFragments.toNat

/-- Every frame that arrives is one of a message that is not complete yet. -/
def Batch.Arrivals {config : ReassemblerConfig} (self : Batch config)
    (frames : List SparseRadioFrame) : Prop :=
  ∀ before frame after, frames = before ++ frame :: after →
    ∃ message ∈ self.messages, frame ∈ message.frames ∧ ¬ message.Complete before

/-- The table after a list of frames, and what every push has answered. -/
def Reassembler.pushAll (self : Reassembler) :
    List SparseRadioFrame → Reassembler × List (Result (Option ReassembledMessage))
  | [] => (self, [])
  | frame :: frames =>
      let (table, result) := self.push frame
      let (table, results) := table.pushAll frames
      (table, result :: results)

/-- One frame more. -/
theorem Reassembler.push_all_concat (self : Reassembler) (frames : List SparseRadioFrame)
    (frame : SparseRadioFrame) :
    self.pushAll (frames ++ [frame]) =
      (((self.pushAll frames).1.push frame).1,
        (self.pushAll frames).2 ++ [((self.pushAll frames).1.push frame).2]) := by
  induction frames generalizing self with
  | nil => rfl
  | cons first frames ih =>
      simp only [List.cons_append, pushAll]
      rw [ih]

/-- The reassembler undoes the fragmenter on a list of arriving frames: the last missing frame of a
message returns it and every other frame returns nothing, the contexts of the other messages stay as
they are, and a message is returned once. -/
structure Inverse {config : ReassemblerConfig} (batch : Batch config) (table : Reassembler)
    (frames : List SparseRadioFrame) : Prop where
  returned : ∀ before frame after, frames = before ++ frame :: after →
    ∀ message ∈ batch.messages, frame ∈ message.frames →
      ((table.pushAll before).1.push frame).2 =
        .ok (if message.Complete (before ++ [frame]) then some message.reassembled else none)
  undisturbed : ∀ before frame after, frames = before ++ frame :: after →
    ∀ key, frame.key ≠ key →
      ((table.pushAll before).1.push frame).1.contextOf key =
        (table.pushAll before).1.contextOf key
  once : ∀ message ∈ batch.messages,
    (table.pushAll frames).2.count (.ok (some message.reassembled)) =
      if message.Complete frames then 1 else 0

/-! ## The progress of a message -/

/-- The bytes that a context has counted. -/
def partBytes (parts : List (Option (List UInt8))) : Nat :=
  (parts.map fun part => (part.getD []).length).sum

/-- A part that is stored adds its bytes. -/
theorem part_bytes_set {parts : List (Option (List UInt8))} {index : Nat}
    (h : parts[index]? = some none) (payload : List UInt8) :
    partBytes (parts.set index (some payload)) = partBytes parts + payload.length := by
  induction parts generalizing index with
  | nil => cases h
  | cons part parts ih =>
      cases index with
      | zero =>
          cases h
          simp [partBytes]
          omega
      | succ index =>
          have hrest := @ih index h
          simp only [partBytes] at hrest
          simp only [partBytes, List.set_cons_succ, List.map_cons, List.sum_cons, hrest]
          omega

namespace FragmentedMessage

variable {self : FragmentedMessage} {arrived : List SparseRadioFrame} {frame : SparseRadioFrame}

/-- The payloads of the frames. -/
def payloads (self : FragmentedMessage) : List (List UInt8) :=
  fragmentPayloads self.bytes self.frameMtu

/-- The frames are those of the payloads. -/
theorem frames_eq (self : FragmentedMessage) :
    self.frames = fragmentFrames self.info self.payloads :=
  (fragment_message_eq_ok self.fragmented).1

/-- A message has at most 32 fragments. -/
theorem payloads_length (self : FragmentedMessage) : self.payloads.length ≤ 32 :=
  (fragment_message_eq_ok self.fragmented).2.1

/-- The payloads join to the message. -/
theorem payloads_flatten (self : FragmentedMessage) : self.payloads.flatten = self.bytes :=
  (fragment_message_eq_ok self.fragmented).2.2

/-- Every payload has its frame. -/
theorem frames_length (self : FragmentedMessage) : self.frames.length = self.payloads.length := by
  rw [frames_eq, fragmentFrames, List.length_mapIdx]

/-- A frame stands at its index, says the count, and carries its payload. -/
theorem frames_get {index : Nat} (h : self.frames[index]? = some frame) :
    frame.fragmentIndex.toNat = index ∧ frame.fragmentCount.toNat = self.frames.length ∧
      self.payloads[index]? = some frame.payload := by
  rw [frames_length]
  rw [frames_eq] at h
  exact fragment_frames_get self.payloads_length h

/-- The frames of a message have its key. -/
theorem key_of_mem (h : frame ∈ self.frames) : frame.key = self.key := by
  rw [frames_eq] at h
  obtain ⟨_, _, -, rfl⟩ := mem_fragment_frames.mp h
  rfl

/-- The frames of a message are valid when its priority is in range. -/
theorem valid_iff (h : frame ∈ self.frames) : frame.Valid ↔ self.info.priority ≤ 15 :=
  fragment_valid_iff self.fragmented h

/-- The payloads that have arrived. -/
def arrivedParts (self : FragmentedMessage) (arrived : List SparseRadioFrame) :
    List (Option (List UInt8)) :=
  self.frames.map fun frame => if frame ∈ arrived then some frame.payload else none

/-- The context of the message once some frames have arrived. -/
def progress (self : FragmentedMessage) (arrived : List SparseRadioFrame) : Context :=
  { toFragmentMeta := self.info
    totalBytes := partBytes (self.arrivedParts arrived)
    parts := self.arrivedParts arrived }

/-- What the table should hold for the message. -/
def expectedContext (self : FragmentedMessage) (arrived : List SparseRadioFrame) : Option Context :=
  if self.Started arrived ∧ ¬ self.Complete arrived then some (self.progress arrived) else none

/-- The progress of a message has its key. -/
@[simp] theorem progress_key (self : FragmentedMessage) (arrived : List SparseRadioFrame) :
    (self.progress arrived).key = self.key := rfl

/-- There is a part for every frame. -/
theorem arrived_parts_length (self : FragmentedMessage) (arrived : List SparseRadioFrame) :
    (self.arrivedParts arrived).length = self.frames.length := by
  rw [arrivedParts, List.length_map]

/-- A part is there when its frame has arrived. -/
theorem arrived_parts_get {index : Nat} (h : self.frames[index]? = some frame) :
    (self.arrivedParts arrived)[index]? =
      some (if frame ∈ arrived then some frame.payload else none) := by
  rw [arrivedParts, List.getElem?_map, h]
  rfl

/-- The frames of a message differ in their index. -/
theorem frames_index_unique {i j : Nat} (hi : self.frames[i]? = some frame)
    (hj : self.frames[j]? = some frame) : i = j := by
  rw [← (frames_get hi).1, (frames_get hj).1]

/-- A frame that arrives fills its own part. -/
theorem arrived_parts_concat {index : Nat} (h : self.frames[index]? = some frame) :
    self.arrivedParts (arrived ++ [frame]) =
      (self.arrivedParts arrived).set index (some frame.payload) := by
  refine List.ext_getElem? fun i => ?_
  rw [List.getElem?_set, arrived_parts_length]
  split
  · rename_i heq
    subst heq
    rw [if_pos (List.getElem?_eq_some_iff.mp h).1, arrived_parts_get h]
    simp
  · rename_i hne
    cases hother : self.frames[i]? with
    | none =>
        rw [arrivedParts, arrivedParts, List.getElem?_map, List.getElem?_map, hother]
        rfl
    | some other =>
        have hdiffer : other ≠ frame := by
          rintro rfl
          exact hne (frames_index_unique h hother)
        rw [arrived_parts_get hother, arrived_parts_get hother]
        simp [hdiffer]

/-- A frame that has arrived before changes nothing. -/
theorem progress_duplicate (h : frame ∈ arrived) :
    self.progress (arrived ++ [frame]) = self.progress arrived := by
  have hparts : self.arrivedParts (arrived ++ [frame]) = self.arrivedParts arrived := by
    refine List.map_congr_left fun other _ => ?_
    have hmem : other ∈ arrived ++ [frame] ↔ other ∈ arrived := by
      rw [List.mem_append, List.mem_singleton]
      exact ⟨fun hor => hor.elim id fun heq => heq ▸ h, Or.inl⟩
    simp only [hmem]
  rw [progress, progress, hparts]

/-- Storing a new frame is progress. -/
theorem store_progress {index : Nat} (h : self.frames[index]? = some frame)
    (hnew : frame ∉ arrived) :
    (self.progress arrived).store frame = self.progress (arrived ++ [frame]) := by
  have hpart : (self.arrivedParts arrived)[index]? = some none := by
    rw [arrived_parts_get h, if_neg hnew]
  rw [Context.store, (frames_get h).1, progress, progress, arrived_parts_concat h,
    part_bytes_set hpart]

/-- No frame of a message conflicts with its progress. -/
theorem progress_agrees (h : frame ∈ self.frames) :
    ¬ (self.progress arrived).conflicts frame := by
  obtain ⟨index, hget⟩ := List.getElem?_of_mem h
  have hcount : (self.progress arrived).parts.length = frame.fragmentCount.toNat := by
    rw [(frames_get hget).2.1]
    exact self.arrived_parts_length arrived
  rw [frames_eq] at h
  obtain ⟨_, _, -, rfl⟩ := mem_fragment_frames.mp h
  simp [Context.conflicts, hcount]
  exact ⟨rfl, rfl, rfl, rfl, rfl⟩

/-- The context that the first frame of a message makes. -/
theorem of_frame_eq_progress (h : frame ∈ self.frames) (hnone : ¬ self.Started arrived) :
    Context.ofFrame frame = self.progress arrived := by
  obtain ⟨index, hget⟩ := List.getElem?_of_mem h
  have hparts : self.arrivedParts arrived = List.replicate frame.fragmentCount.toNat none := by
    rw [(frames_get hget).2.1, arrivedParts, ← List.map_const']
    exact List.map_congr_left fun other hother =>
      if_neg fun harrived => hnone ⟨other, hother, harrived⟩
  rw [progress, hparts, Context.ofFrame, show partBytes _ = 0 by simp [partBytes]]
  rw [frames_eq] at h
  obtain ⟨_, _, -, rfl⟩ := mem_fragment_frames.mp h
  rfl

/-- A part is missing as long as the message is not complete. -/
theorem any_none_iff :
    (self.arrivedParts arrived).any Option.isNone = true ↔ ¬ self.Complete arrived := by
  simp [arrivedParts, Complete]

/-- A complete context gives the message back. -/
theorem progress_message (h : self.Complete arrived) :
    (self.progress arrived).message = .ok self.reassembled := by
  have hcarries : Carries self.info self.payloads (self.progress arrived) := by
    refine ⟨rfl, (self.arrived_parts_length arrived).trans self.frames_length, ?_⟩
    intro index payload hpart
    cases hframe : self.frames[index]? with
    | none =>
        simp [progress, arrivedParts, hframe] at hpart
    | some frame =>
        have hget : (self.arrivedParts arrived)[index]? = some (some payload) := hpart
        rw [arrived_parts_get hframe, if_pos (h _ (List.mem_of_getElem? hframe))] at hget
        rw [(frames_get hframe).2.2, Option.some.inj (Option.some.inj hget)]
  have hfull : (self.progress arrived).parts.any Option.isNone = false :=
    Bool.eq_false_iff.mpr fun hany => any_none_iff.mp hany h
  rw [hcarries.message hfull, payloads_flatten]
  rfl

/-- A context never counts more bytes than the message has. -/
theorem part_bytes_le (self : FragmentedMessage) (arrived : List SparseRadioFrame) :
    partBytes (self.arrivedParts arrived) ≤ self.bytes.length := by
  have hbytes : self.bytes.length = (self.frames.map fun frame => frame.payload.length).sum := by
    have hpayloads : self.frames.map SparseRadioFrame.payload = self.payloads := by
      refine List.ext_getElem? fun i => ?_
      rw [frames_eq, fragmentFrames, List.getElem?_map, List.getElem?_mapIdx, Option.map_map]
      exact Option.map_id'
    rw [← payloads_flatten, List.length_flatten, ← hpayloads, List.map_map]
    rfl
  rw [hbytes, partBytes, arrivedParts, List.map_map]
  refine List.sum_le_sum fun frame _ => ?_
  simp only [Function.comp_apply]
  split <;> simp

end FragmentedMessage

/-! ## The table -/

/-- The invariant: the table holds the progress of the messages in flight, and nothing else. -/
structure Tracks {config : ReassemblerConfig} (batch : Batch config)
    (arrived : List SparseRadioFrame) (table : Reassembler) : Prop where
  config_eq : table.config = config
  distinct : table.DistinctKeys
  contexts : ∀ message ∈ batch.messages,
    table.contextOf message.key = message.expectedContext arrived
  known : ∀ context ∈ table.contexts, ∃ message ∈ batch.messages, context.key = message.key

namespace Tracks

variable {config : ReassemblerConfig} {batch : Batch config} {arrived : List SparseRadioFrame}
  {table : Reassembler} {message : FragmentedMessage} {frame : SparseRadioFrame}

/-- A new table tracks a batch of which nothing has arrived. -/
theorem start (h : Reassembler.new config = .ok table) : Tracks batch [] table := by
  have hdistinct := Reassembler.new_distinct h
  obtain ⟨-, heq⟩ := Lib.guard_eq_ok_iff.mp h
  cases heq
  refine ⟨rfl, hdistinct, fun message _ => ?_, fun _ hcontext => absurd hcontext List.not_mem_nil⟩
  rw [FragmentedMessage.expectedContext, if_neg]
  · rfl
  · rintro ⟨⟨_, -, hnil⟩, -⟩
    exact List.not_mem_nil hnil

/-- Messages with the same key are the same. -/
theorem eq_of_key (batch : Batch config) {other : FragmentedMessage}
    (hmessage : message ∈ batch.messages) (hother : other ∈ batch.messages)
    (hkey : message.key = other.key) : message = other :=
  List.inj_on_of_nodup_map batch.distinct hmessage hother hkey

/-- The frames of the other messages say nothing about a message. -/
theorem expected_context_concat (hframe : frame ∉ message.frames) :
    message.expectedContext (arrived ++ [frame]) = message.expectedContext arrived := by
  have hmem : ∀ other ∈ message.frames, other ∈ arrived ++ [frame] ↔ other ∈ arrived := by
    intro other hother
    rw [List.mem_append, List.mem_singleton]
    exact ⟨fun hor => hor.elim id fun heq => absurd (heq ▸ hother) hframe, Or.inl⟩
  have hstarted : message.Started (arrived ++ [frame]) ↔ message.Started arrived :=
    exists_congr fun other => and_congr_right fun hother => hmem other hother
  have hcomplete : message.Complete (arrived ++ [frame]) ↔ message.Complete arrived :=
    forall₂_congr hmem
  have hparts : message.arrivedParts (arrived ++ [frame]) = message.arrivedParts arrived :=
    List.map_congr_left fun other hother => by simp only [hmem other hother]
  simp only [FragmentedMessage.expectedContext, FragmentedMessage.progress, hstarted, hcomplete,
    hparts]

/-- A push on the progress of the message of its frame. -/
theorem push_at (hdistinct : table.DistinctKeys) {index : Nat}
    (hcontext : table.contexts[index]? = some (message.progress arrived))
    (hbytes : message.bytes.length ≤ table.config.maxMessageBytes)
    (hframe : frame ∈ message.frames) (hincomplete : ¬ message.Complete arrived) :
    ∃ next, table.pushAt index (message.progress arrived) frame =
        (next, .ok (if message.Complete (arrived ++ [frame]) then some message.reassembled
          else none)) ∧
      next.contextOf message.key = message.expectedContext (arrived ++ [frame]) := by
  obtain ⟨i, hget⟩ := List.getElem?_of_mem hframe
  have hagrees : ¬ (message.progress arrived).conflicts frame := message.progress_agrees hframe
  have hstarted : message.Started (arrived ++ [frame]) := ⟨frame, hframe, by simp⟩
  have hpart : (message.progress arrived).parts.getD frame.fragmentIndex.toNat none =
      if frame ∈ arrived then some frame.payload else none := by
    rw [(FragmentedMessage.frames_get hget).1, List.getD_eq_getElem?_getD]
    show ((message.arrivedParts arrived)[i]?).getD none = _
    rw [FragmentedMessage.arrived_parts_get hget, Option.getD_some]
  have hkey : Keyed.find Context.key table.contexts message.key = some (message.progress arrived) :=
    (Keyed.find_eq_some_iff hdistinct).mpr ⟨List.mem_of_getElem? hcontext, rfl⟩
  by_cases harrived : frame ∈ arrived
  · -- a duplicate leaves the table as it is, and completes nothing
    rw [if_pos harrived] at hpart
    have hsame : ¬ message.Complete (arrived ++ [frame]) := fun hcomplete =>
      hincomplete fun other hother => by
        rcases List.mem_append.mp (hcomplete other hother) with hmem | hlast
        · exact hmem
        · exact List.mem_singleton.mp hlast ▸ harrived
    refine ⟨table, ?_, ?_⟩
    · rw [Reassembler.push_at_duplicate hagrees hpart, if_neg hsame]
    · rw [FragmentedMessage.expectedContext, if_pos ⟨hstarted, hsame⟩,
        FragmentedMessage.progress_duplicate harrived]
      exact hkey
  · rw [if_neg harrived] at hpart
    have hstore := FragmentedMessage.store_progress hget harrived
    have hcount : (message.progress arrived).totalBytes + frame.payload.length ≤
        table.config.maxMessageBytes := by
      have hafter : ((message.progress arrived).store frame).totalBytes ≤ message.bytes.length := by
        rw [hstore]
        exact message.part_bytes_le _
      exact Nat.le_trans hafter hbytes
    by_cases hcomplete : message.Complete (arrived ++ [frame])
    · -- the frame is the last one missing
      have hfull : ((message.progress arrived).store frame).parts.any Option.isNone = false := by
        rw [hstore]
        exact Bool.eq_false_iff.mpr fun hany => FragmentedMessage.any_none_iff.mp hany hcomplete
      obtain ⟨next, hpush, hgone⟩ :=
        Reassembler.push_at_full hdistinct hcontext ⟨hagrees, hpart⟩ hcount hfull
      rw [hstore, FragmentedMessage.progress_message hcomplete] at hpush
      refine ⟨next, by rw [hpush, if_pos hcomplete]; rfl, ?_⟩
      rw [FragmentedMessage.expectedContext, if_neg fun hboth => hboth.2 hcomplete]
      exact hgone
    · have hmissing : (message.progress (arrived ++ [frame])).parts.any Option.isNone = true :=
        FragmentedMessage.any_none_iff.mpr hcomplete
      rw [Reassembler.push_at_new hagrees hpart hcount, hstore, hmissing]
      refine ⟨_, by rw [if_neg hcomplete]; rfl, ?_⟩
      rw [FragmentedMessage.expectedContext, if_pos ⟨hstarted, hcomplete⟩]
      exact Keyed.find_set_self hdistinct hcontext rfl

/-- A push answers with the message that its frame completes, and the invariant stays. -/
theorem push (h : Tracks batch arrived table) (hmessage : message ∈ batch.messages)
    (hframe : frame ∈ message.frames) (hpriority : message.info.priority ≤ 15)
    (hincomplete : ¬ message.Complete arrived) :
    ∃ next, table.push frame =
        (next, .ok (if message.Complete (arrived ++ [frame]) then some message.reassembled
          else none)) ∧ Tracks batch (arrived ++ [frame]) next := by
  have hvalid := (FragmentedMessage.valid_iff hframe).mpr hpriority
  have hkey := FragmentedMessage.key_of_mem hframe
  have hcount : frame.fragmentCount ≤ table.config.maxFragments := by
    obtain ⟨i, hget⟩ := List.getElem?_of_mem hframe
    rw [h.config_eq, UInt8.le_iff_toNat_le, (FragmentedMessage.frames_get hget).2.1]
    exact batch.fragments message hmessage
  have hbytes : message.bytes.length ≤ table.config.maxMessageBytes :=
    h.config_eq ▸ batch.bytes message hmessage
  have hcontext := h.contexts message hmessage
  obtain ⟨next, hpush, hself⟩ : ∃ next, table.push frame =
      (next, .ok (if message.Complete (arrived ++ [frame]) then some message.reassembled
        else none)) ∧
      next.contextOf message.key = message.expectedContext (arrived ++ [frame]) := by
    by_cases hstarted : message.Started arrived
    · rw [FragmentedMessage.expectedContext, if_pos ⟨hstarted, hincomplete⟩, ← hkey] at hcontext
      obtain ⟨index, hget, hpush⟩ :=
        Reassembler.push_eq_push_at hvalid hcount h.distinct hcontext
      rw [hpush]
      exact push_at h.distinct hget hbytes hframe hincomplete
    · -- the first frame of the message finds a free context
      rw [FragmentedMessage.expectedContext, if_neg fun hboth => hstarted hboth.1] at hcontext
      have hroom : table.contexts.length ≠ table.config.maxContexts := by
        have hlt := Keyed.length_lt_of_unused h.distinct h.known hmessage hcontext
        have hle := batch.contexts
        rw [h.config_eq]
        omega
      rw [← hkey] at hcontext
      have hdistinct := Reassembler.append_distinct h.distinct
        (Reassembler.context_of_eq_none_iff.mp hcontext)
      have hfresh := FragmentedMessage.of_frame_eq_progress hframe hstarted
      rw [hfresh] at hdistinct
      rw [Reassembler.push_eq_push_at_new hvalid hcount hcontext hroom, hfresh]
      exact push_at hdistinct List.getElem?_concat_length hbytes hframe hincomplete
  -- the frame belongs to one message, so the contexts of the others stay
  refine ⟨next, hpush, ?_, Reassembler.push_distinct h.distinct hpush, fun other hother => ?_,
    fun context hmem => ?_⟩
  · have hconfig := Reassembler.push_config hpush
    exact hconfig.trans h.config_eq
  · by_cases hsame : other = message
    · rw [hsame]
      exact hself
    · have hdiffer : frame.key ≠ other.key := fun heq =>
        hsame (eq_of_key batch hother hmessage (heq.symm.trans hkey))
      rw [Reassembler.push_find_other h.distinct hpush hdiffer, h.contexts other hother,
        expected_context_concat fun hmem => hdiffer (FragmentedMessage.key_of_mem hmem)]
  · rcases Reassembler.push_keys hpush context hmem with heq | ⟨old, hold, heq⟩
    · exact ⟨message, hmessage, heq.trans hkey⟩
    · obtain ⟨owner, howner, hold⟩ := h.known old hold
      exact ⟨owner, howner, heq.trans hold⟩

end Tracks

/-! ## Runs -/

section Runs

variable {config : ReassemblerConfig} {batch : Batch config} {table : Reassembler}
  {frames : List SparseRadioFrame} {frame : SparseRadioFrame}

/-- Nothing has arrived at the start. -/
theorem Batch.arrivals_nil (batch : Batch config) : batch.Arrivals [] := forall_split_nil

/-- One more frame arrives. -/
theorem Batch.arrivals_concat_iff :
    batch.Arrivals (frames ++ [frame]) ↔ batch.Arrivals frames ∧
      ∃ message ∈ batch.messages, frame ∈ message.frames ∧ ¬ message.Complete frames :=
  forall_split_concat

/-- A message that was started stays started. -/
theorem FragmentedMessage.Started.mono {message : FragmentedMessage}
    {arrived more : List SparseRadioFrame} (h : message.Started arrived) :
    message.Started (arrived ++ more) := by
  obtain ⟨frame, hframe, harrived⟩ := h
  exact ⟨frame, hframe, List.mem_append_left _ harrived⟩

/-- The invariant over a run. -/
theorem Tracks.push_all (htable : Reassembler.new config = .ok table)
    (harrivals : batch.Arrivals frames)
    (hpriority : ∀ message ∈ batch.messages, message.Started frames →
      message.info.priority ≤ 15) :
    Tracks batch frames (table.pushAll frames).1 := by
  induction frames using List.reverseRecOn with
  | nil => exact Tracks.start htable
  | append_singleton frames frame ih =>
      obtain ⟨hbefore, message, hmessage, hframe, hincomplete⟩ :=
        Batch.arrivals_concat_iff.mp harrivals
      have htracks := ih hbefore fun other hother hstarted =>
        hpriority other hother hstarted.mono
      obtain ⟨next, hpush, hnext⟩ := htracks.push hmessage hframe
        (hpriority message hmessage ⟨frame, hframe, by simp⟩) hincomplete
      rw [Reassembler.push_all_concat, hpush]
      exact hnext

/-- The frame that arrives is one of the only message that has it. -/
theorem Batch.arrivals_incomplete (harrivals : batch.Arrivals (frames ++ [frame]))
    {message : FragmentedMessage} (hmessage : message ∈ batch.messages)
    (hframe : frame ∈ message.frames) : ¬ message.Complete frames := by
  obtain ⟨-, owner, howner, hmem, hincomplete⟩ := Batch.arrivals_concat_iff.mp harrivals
  have hkey : owner.key = message.key :=
    (FragmentedMessage.key_of_mem hmem).symm.trans (FragmentedMessage.key_of_mem hframe)
  rwa [Tracks.eq_of_key batch howner hmessage hkey] at hincomplete

/-- What a push answers in a run. -/
theorem returned_of_tracks (htracks : Tracks batch frames (table.pushAll frames).1)
    (harrivals : batch.Arrivals (frames ++ [frame])) {message : FragmentedMessage}
    (hmessage : message ∈ batch.messages) (hframe : frame ∈ message.frames)
    (hpriority : message.info.priority ≤ 15) :
    ((table.pushAll frames).1.push frame).2 =
      .ok (if message.Complete (frames ++ [frame]) then some message.reassembled else none) := by
  obtain ⟨next, hpush, -⟩ := htracks.push hmessage hframe hpriority
    (Batch.arrivals_incomplete harrivals hmessage hframe)
  rw [hpush]

/-- Every message is returned once, when it is complete. -/
theorem returned_once (htable : Reassembler.new config = .ok table)
    (harrivals : batch.Arrivals frames)
    (hpriority : ∀ message ∈ batch.messages, message.Started frames → message.info.priority ≤ 15)
    {message : FragmentedMessage} (hmessage : message ∈ batch.messages) :
    (table.pushAll frames).2.count (.ok (some message.reassembled)) =
      if message.Complete frames then 1 else 0 := by
  induction frames using List.reverseRecOn with
  | nil =>
      -- every message has a frame, so it is not complete yet
      have hincomplete : ¬ message.Complete [] := by
        intro hcomplete
        have hframes := List.eq_nil_iff_forall_not_mem.mpr fun frame hframe =>
          List.not_mem_nil (hcomplete frame hframe)
        exact fragment_ne_nil message.fragmented hframes
      rw [if_neg hincomplete]
      rfl
  | append_singleton frames frame ih =>
      obtain ⟨hbefore, owner, howner, hframe, hincomplete⟩ :=
        Batch.arrivals_concat_iff.mp harrivals
      have hpriority' : ∀ message ∈ batch.messages, message.Started frames →
          message.info.priority ≤ 15 :=
        fun other hother hstarted => hpriority other hother hstarted.mono
      have hreturned := returned_of_tracks (Tracks.push_all htable hbefore hpriority') harrivals
        howner hframe (hpriority owner howner ⟨frame, hframe, by simp⟩)
      rw [Reassembler.push_all_concat, List.count_append, ih hbefore hpriority', hreturned]
      by_cases hsame : message = owner
      · rw [hsame, if_neg hincomplete, Nat.zero_add]
        split <;> simp
      · -- the frame of another message returns another message or nothing
        have hdiffer : owner.key ≠ message.key := fun heq =>
          hsame (Tracks.eq_of_key batch hmessage howner heq.symm)
        have hother : ¬ (if owner.Complete (frames ++ [frame]) then some owner.reassembled
            else none) = some message.reassembled := by
          split
          · intro heq
            exact hdiffer (congrArg (fun m : ReassembledMessage => m.toFragmentMeta.key)
              (Option.some.inj heq))
          · simp
        have hframes : message.Complete (frames ++ [frame]) ↔ message.Complete frames := by
          refine forall₂_congr fun other hmem => ?_
          rw [List.mem_append, List.mem_singleton]
          refine ⟨fun hor => hor.elim id fun heq => absurd ?_ hdiffer, Or.inl⟩
          rw [← FragmentedMessage.key_of_mem hframe, ← heq, FragmentedMessage.key_of_mem hmem]
        simp [hother, hframes]

/-- As long as no message is complete, every push answers with nothing. -/
theorem answers_incomplete (htable : Reassembler.new config = .ok table)
    (harrivals : batch.Arrivals frames)
    (hpriority : ∀ message ∈ batch.messages, message.Started frames → message.info.priority ≤ 15)
    (hincomplete : ∀ message ∈ batch.messages, ¬ message.Complete frames) :
    (table.pushAll frames).2 = List.replicate frames.length (.ok none) := by
  induction frames using List.reverseRecOn with
  | nil => rfl
  | append_singleton frames frame ih =>
      obtain ⟨hbefore, message, hmessage, hframe, -⟩ := Batch.arrivals_concat_iff.mp harrivals
      have hpriority' : ∀ message ∈ batch.messages, message.Started frames →
          message.info.priority ≤ 15 :=
        fun other hother hstarted => hpriority other hother hstarted.mono
      have hincomplete' : ∀ message ∈ batch.messages, ¬ message.Complete frames :=
        fun other hother hcomplete => hincomplete other hother fun frame hmem =>
          List.mem_append_left _ (hcomplete frame hmem)
      have hreturned := returned_of_tracks (Tracks.push_all htable hbefore hpriority') harrivals
        hmessage hframe (hpriority message hmessage ⟨frame, hframe, by simp⟩)
      rw [if_neg (hincomplete message hmessage)] at hreturned
      rw [Reassembler.push_all_concat, ih hbefore hpriority' hincomplete', hreturned,
        List.length_append, List.length_singleton, List.replicate_succ']

/-- The frames of a message are different. -/
theorem FragmentedMessage.frames_nodup (message : FragmentedMessage) : message.frames.Nodup := by
  rw [List.nodup_iff_getElem?_ne_getElem?]
  intro i j hlt hj heq
  have hget := List.getElem?_eq_getElem hj
  exact absurd (message.frames_index_unique (heq.trans hget) hget) (Nat.ne_of_lt hlt)

/-- The frames of one message in any order: the last one returns the message and the others return
nothing. -/
theorem push_all_permuted (htable : Reassembler.new config = .ok table)
    {message : FragmentedMessage} (hpriority : message.info.priority ≤ 15)
    (hbytes : message.bytes.length ≤ config.maxMessageBytes)
    (hfragments : message.frames.length ≤ config.maxFragments.toNat)
    (hperm : frames.Perm message.frames) :
    ∃ count, (table.pushAll frames).2 =
      List.replicate count (.ok none) ++ [.ok (some message.reassembled)] := by
  have hcontexts : 1 ≤ config.maxContexts := by
    obtain ⟨hguard, -⟩ := Lib.guard_eq_ok_iff.mp htable
    omega
  let batch : Batch config :=
    { messages := [message]
      contexts := hcontexts
      distinct := List.nodup_singleton _
      bytes := fun other hother => by rwa [List.mem_singleton.mp hother]
      fragments := fun other hother => by rwa [List.mem_singleton.mp hother] }
  have hmessage : message ∈ batch.messages := List.mem_singleton_self message
  have harrivals : batch.Arrivals frames := by
    intro before frame after heq
    have hframe : frame ∈ message.frames := hperm.mem_iff.mp (by rw [heq]; simp)
    refine ⟨message, hmessage, hframe, fun hcomplete => ?_⟩
    -- the frame would be there twice
    have hnodup := hperm.nodup_iff.mpr message.frames_nodup
    rw [heq, List.nodup_append] at hnodup
    exact hnodup.2.2 frame (hcomplete frame hframe) frame (List.mem_cons_self ..) rfl
  have hpriorities : ∀ arrived, ∀ other ∈ batch.messages, other.Started arrived →
      other.info.priority ≤ 15 := by
    intro arrived other hother _
    rwa [List.mem_singleton.mp hother]
  rcases List.eq_nil_or_concat frames with rfl | ⟨init, last, rfl⟩
  · exact absurd hperm.nil_eq.symm (fragment_ne_nil message.fragmented)
  · rw [List.concat_eq_append] at harrivals hperm ⊢
    obtain ⟨hinit, -⟩ := Batch.arrivals_concat_iff.mp harrivals
    have hlast : last ∈ message.frames := hperm.mem_iff.mp (by simp)
    have hmissing := Batch.arrivals_incomplete harrivals hmessage hlast
    have hreturned := returned_of_tracks (Tracks.push_all htable hinit (hpriorities init)) harrivals
      hmessage hlast hpriority
    have hcomplete : message.Complete (init ++ [last]) := fun frame hframe =>
      hperm.mem_iff.mpr hframe
    rw [if_pos hcomplete] at hreturned
    refine ⟨init.length, ?_⟩
    rw [Reassembler.push_all_concat, hreturned, answers_incomplete htable hinit (hpriorities init)]
    intro other hother
    rwa [List.mem_singleton.mp hother]

/-- A frame that is not refused is valid. -/
theorem Reassembler.valid_of_push_ok {self : Reassembler} {frame : SparseRadioFrame}
    {message : Option ReassembledMessage} (h : (self.push frame).2 = .ok message) :
    frame.Valid := by
  rcases push_cases (Prod.ext rfl h : self.push frame = ((self.push frame).1, .ok message)) with
    ⟨-, _, herror⟩ | ⟨hvalid, -⟩
  · cases herror
  · exact hvalid

/-- The reassembler undoes the fragmenter exactly when the messages that arrive have a priority that
fits in four bits: `fragment_message` cuts the others too, but `push` refuses their frames. -/
theorem reassembly_inverse_iff (htable : Reassembler.new config = .ok table) (batch : Batch config)
    (harrivals : batch.Arrivals frames) :
    Inverse batch table frames ↔
      ∀ message ∈ batch.messages, message.Started frames → message.info.priority ≤ 15 := by
  constructor
  · rintro h message hmessage ⟨frame, hframe, harrived⟩
    obtain ⟨before, after, heq⟩ := List.append_of_mem harrived
    have hok := h.returned before frame after heq message hmessage hframe
    exact (FragmentedMessage.valid_iff hframe).mp (Reassembler.valid_of_push_ok hok)
  · intro hpriority
    have hsplit : ∀ before frame after, frames = before ++ frame :: after →
        batch.Arrivals (before ++ [frame]) ∧ Tracks batch before (table.pushAll before).1 := by
      intro before frame after heq
      have harrived : batch.Arrivals (before ++ [frame]) := by
        intro init other rest hinit
        refine harrivals init other (rest ++ after) ?_
        rw [heq, List.append_cons before, hinit, List.append_assoc, List.cons_append]
      refine ⟨harrived, Tracks.push_all htable (Batch.arrivals_concat_iff.mp harrived).1 ?_⟩
      intro message hmessage hstarted
      exact hpriority message hmessage (heq ▸ hstarted.mono)
    refine ⟨fun before frame after heq message hmessage hframe => ?_,
      fun before frame after heq key hother => ?_,
      fun message hmessage => returned_once htable harrivals hpriority hmessage⟩
    · obtain ⟨harrived, htracks⟩ := hsplit before frame after heq
      exact returned_of_tracks htracks harrived hmessage hframe
        (hpriority message hmessage ⟨frame, hframe, by simp [heq]⟩)
    · exact Reassembler.push_find_other (hsplit before frame after heq).2.distinct rfl hother

end Runs

/-! ## Two messages on one stream -/

/-- The metadata of a sample message. -/
def sampleInfo (sequence : UInt16) (priority : UInt8) : FragmentMeta :=
  ⟨.ble, FrameFlags.none, 2, sequence, .stateDelta, priority, 0x1234⟩

/-- A message of two fragments. -/
def samplePair (priority : UInt8) : FragmentedMessage where
  info := sampleInfo 9 priority
  bytes := [1, 2]
  frameMtu := 17
  frames := [(sampleInfo 9 priority).frame 0 2 [1], (sampleInfo 9 priority).frame 1 2 [2]]
  fragmented := rfl

/-- A message of one fragment. -/
def sampleSingle : FragmentedMessage where
  info := sampleInfo 10 0
  bytes := [3]
  frameMtu := 64
  frames := [(sampleInfo 10 0).frame 0 1 [3]]
  fragmented := rfl

/-- A batch of two messages. -/
def sampleBatch (priority : UInt8) : Batch .default where
  messages := [samplePair priority, sampleSingle]
  contexts := by
    show 2 ≤ 4
    decide
  distinct := by
    show [((2 : UInt16), (9 : UInt16)), (2, 10)].Nodup
    decide
  bytes := by
    intro message hmessage
    rcases List.mem_pair.mp hmessage with rfl | rfl
    · show 2 ≤ 7680
      decide
    · show 1 ≤ 7680
      decide
  fragments := by
    intro message hmessage
    rcases List.mem_pair.mp hmessage with rfl | rfl
    · show 2 ≤ 32
      decide
    · show 1 ≤ 32
      decide

/-- The second fragment of the pair, the single one, the second one again, and the first. -/
def sampleArrivals (priority : UInt8) : List SparseRadioFrame :=
  [(sampleInfo 9 priority).frame 1 2 [2], (sampleInfo 10 0).frame 0 1 [3],
    (sampleInfo 9 priority).frame 1 2 [2], (sampleInfo 9 priority).frame 0 2 [1]]

/-- The frames of the batch in an order that mixes the messages. -/
theorem sample_arrivals : (sampleBatch 8).Arrivals (sampleArrivals 8) := by
  have hfirst := Batch.arrivals_concat_iff.mpr ⟨(sampleBatch 8).arrivals_nil,
    (by decide : ∃ message ∈ (sampleBatch 8).messages,
      (sampleInfo 9 8).frame 1 2 [2] ∈ message.frames ∧ ¬ message.Complete [])⟩
  have hsecond := Batch.arrivals_concat_iff.mpr ⟨hfirst,
    (by decide : ∃ message ∈ (sampleBatch 8).messages,
      (sampleInfo 10 0).frame 0 1 [3] ∈ message.frames ∧ ¬ message.Complete _)⟩
  have hthird := Batch.arrivals_concat_iff.mpr ⟨hsecond,
    (by decide : ∃ message ∈ (sampleBatch 8).messages,
      (sampleInfo 9 8).frame 1 2 [2] ∈ message.frames ∧ ¬ message.Complete _)⟩
  exact Batch.arrivals_concat_iff.mpr ⟨hthird,
    (by decide : ∃ message ∈ (sampleBatch 8).messages,
      (sampleInfo 9 8).frame 0 2 [1] ∈ message.frames ∧ ¬ message.Complete _)⟩

/-- The theorem at the mixed batch. -/
theorem reassembly_inverse_sample :
    Inverse (sampleBatch 8) ⟨.default, []⟩ (sampleArrivals 8) :=
  (reassembly_inverse_iff rfl (sampleBatch 8) sample_arrivals).mpr fun message hmessage _ => by
    rcases List.mem_pair.mp hmessage with rfl | rfl <;> decide

/-- A message of priority 16 is cut into frames that the reassembler refuses. -/
theorem reassembly_refuses_priority :
    ∃ (batch : Batch .default) (table : Reassembler) (frames : List SparseRadioFrame),
      Reassembler.new .default = .ok table ∧ batch.Arrivals frames ∧
        ¬ Inverse batch table frames := by
  refine ⟨sampleBatch 16, ⟨.default, []⟩, [(sampleInfo 9 16).frame 0 2 [1]], rfl, ?_, fun h => ?_⟩
  · exact Batch.arrivals_concat_iff.mpr ⟨(sampleBatch 16).arrivals_nil, by decide⟩
  · have hreturned := h.returned [] _ [] rfl (samplePair 16) (List.mem_cons_self ..)
      (List.mem_cons_self ..)
    revert hreturned
    decide

end LatentMesh.AirCore
