import LatentMesh.AirCore.Fragment

/-!
# Reassembling fragments

What a push can do to the table (`Reassembler.push_contexts`, `Reassembler.push_complete`), and the
message that a context carries when every fragment in it comes from that message (`Carries`).
-/

namespace LatentMesh.AirCore

open LatentMesh.Lib

/-! ## The frames of a message -/

/-- The payloads that `fragment_message` cuts a message into. -/
def fragmentPayloads (message : List UInt8) (frameMtu : Nat) : List (List UInt8) :=
  if message.isEmpty then [[]] else chunks (frameMtu - frameMinBytes) message

/-- The frames of a message with the given payloads. -/
def fragmentFrames (info : FragmentMeta) (payloads : List (List UInt8)) : List SparseRadioFrame :=
  payloads.mapIdx fun index payload =>
    info.frame (UInt8.ofNat index) (UInt8.ofNat payloads.length) payload

/-- The frames of some payloads. -/
theorem mem_fragment_frames {info : FragmentMeta} {payloads : List (List UInt8)}
    {frame : SparseRadioFrame} :
    frame ∈ fragmentFrames info payloads ↔
      ∃ index payload, payloads[index]? = some payload ∧
        frame = info.frame (UInt8.ofNat index) (UInt8.ofNat payloads.length) payload := by
  rw [fragmentFrames, List.mem_mapIdx]
  constructor
  · rintro ⟨index, hindex, rfl⟩
    exact ⟨index, payloads[index], List.getElem?_eq_getElem hindex, rfl⟩
  · rintro ⟨index, payload, hpayload, rfl⟩
    obtain ⟨hindex, hget⟩ := List.getElem?_eq_some_iff.mp hpayload
    exact ⟨index, hindex, by rw [hget]⟩

/-- What `fragment_message` returns: at most 32 frames, whose payloads join to the message. -/
theorem fragment_message_eq_ok {info : FragmentMeta} {message : List UInt8} {frameMtu : Nat}
    {frames : List SparseRadioFrame} (h : fragmentMessage info message frameMtu = .ok frames) :
    frames = fragmentFrames info (fragmentPayloads message frameMtu) ∧
      (fragmentPayloads message frameMtu).length ≤ 32 ∧
      (fragmentPayloads message frameMtu).flatten = message := by
  dsimp only [fragmentMessage] at h
  obtain ⟨-, -, hcapacity, hcount, hframes⟩ : _ ∧ _ ∧ _ ∧ _ ∧ _ := by
    simpa only [Lib.guard_eq_ok_iff] using h
  cases message with
  | nil =>
      simp only [List.isEmpty_nil, if_true, Except.ok.injEq] at hframes
      subst hframes
      exact ⟨rfl, by simp [fragmentPayloads], rfl⟩
  | cons byte rest =>
      have hsize : 0 < frameMtu - frameMinBytes := by
        simp only [List.isEmpty_cons, Bool.false_eq_true, not_false_eq_true, and_true] at hcapacity
        exact Nat.pos_of_ne_zero hcapacity
      simp only [List.isEmpty_cons, Bool.false_eq_true, if_false, Except.ok.injEq] at hframes hcount
      subst hframes
      simp only [fragmentPayloads, List.isEmpty_cons, Bool.false_eq_true, if_false, chunks_length]
      refine ⟨?_, Nat.not_lt.mp hcount, flatten_chunks hsize _⟩
      rw [fragmentFrames, chunks_length]

/-- `fragment_message` cuts every message that 32 payloads can hold. -/
theorem fragment_message_fits (info : FragmentMeta) {message : List UInt8} {frameMtu : Nat}
    (hmin : frameMinBytes < frameMtu) (hmax : frameMtu ≤ frameMaxBytes)
    (hlength : message.length ≤ 32 * (frameMtu - frameMinBytes)) :
    ∃ frames, fragmentMessage info message frameMtu = .ok frames := by
  have hbytes : message.length ≤ maxMessageBytes :=
    Nat.le_trans hlength (Nat.mul_le_mul_left 32 (Nat.sub_le_sub_right hmax _))
  have hcapacity : 0 < frameMtu - frameMinBytes := Nat.sub_pos_of_lt hmin
  dsimp only [fragmentMessage]
  rw [if_neg (not_not.mpr ⟨Nat.le_of_lt hmin, hmax⟩), if_neg (Nat.not_lt.mpr hbytes),
    if_neg fun hzero => Nat.ne_of_gt hcapacity hzero.1]
  cases message with
  | nil =>
      simp only [List.isEmpty_nil, if_true]
      exact ⟨_, rfl⟩
  | cons byte rest =>
      have hcount : ¬ maxFragments.toNat <
          divCeil (byte :: rest).length (frameMtu - frameMinBytes) :=
        Nat.not_lt.mpr ((div_ceil_le_iff hcapacity).mpr hlength)
      simp only [List.isEmpty_cons, Bool.false_eq_true, if_false]
      rw [if_neg hcount]
      exact ⟨_, rfl⟩

/-- Every message has a frame. -/
theorem fragment_ne_nil {info : FragmentMeta} {message : List UInt8} {frameMtu : Nat}
    {frames : List SparseRadioFrame} (h : fragmentMessage info message frameMtu = .ok frames) :
    frames ≠ [] := by
  obtain ⟨rfl, -, hflatten⟩ := fragment_message_eq_ok h
  intro hnil
  have hpayloads : fragmentPayloads message frameMtu = [] := by
    rw [← List.length_eq_zero_iff, ← List.length_mapIdx (f := fun index payload =>
      info.frame (UInt8.ofNat index) (UInt8.ofNat (fragmentPayloads message frameMtu).length)
        payload), List.length_eq_zero_iff]
    exact hnil
  rw [hpayloads, List.flatten_nil] at hflatten
  rw [← hflatten] at hpayloads
  cases hpayloads

/-- The frame at an index of a message of at most 32 frames. -/
theorem fragment_frames_get {info : FragmentMeta} {payloads : List (List UInt8)}
    (hcount : payloads.length ≤ 32) {index : Nat} {frame : SparseRadioFrame}
    (h : (fragmentFrames info payloads)[index]? = some frame) :
    frame.fragmentIndex.toNat = index ∧ frame.fragmentCount.toNat = payloads.length ∧
      payloads[index]? = some frame.payload := by
  rw [fragmentFrames, List.getElem?_mapIdx, Option.map_eq_some_iff] at h
  obtain ⟨payload, hpayload, rfl⟩ := h
  have hindex := (List.getElem?_eq_some_iff.mp hpayload).1
  exact ⟨UInt8.toNat_ofNat_of_lt' (Nat.lt_of_lt_of_le hindex (Nat.le_trans hcount (by decide))),
    UInt8.toNat_ofNat_of_lt' (Nat.lt_of_le_of_lt hcount (by decide)), hpayload⟩

/-- No payload is longer than the payload of a frame may be. -/
theorem fragment_payload_length {info : FragmentMeta} {message : List UInt8} {frameMtu : Nat}
    {frames : List SparseRadioFrame} (h : fragmentMessage info message frameMtu = .ok frames)
    {payload : List UInt8} (hpayload : payload ∈ fragmentPayloads message frameMtu) :
    payload.length ≤ frameMtu - frameMinBytes ∧ payload.length ≤ frameMaxPayload := by
  dsimp only [fragmentMessage] at h
  have hmtu := (Lib.guard_eq_ok_iff.mp h).1
  rw [not_not] at hmtu
  have hlength : payload.length ≤ frameMtu - frameMinBytes := by
    unfold fragmentPayloads at hpayload
    split at hpayload
    · rw [List.mem_singleton.mp hpayload]
      exact Nat.zero_le _
    · exact length_le_of_mem_chunks hpayload
  exact ⟨hlength, Nat.le_trans hlength (Nat.sub_le_sub_right hmtu.2 _)⟩

/-- The frames of a message pass `validate` exactly when its priority fits in four bits, which
`fragment_message` does not check. -/
theorem fragment_valid_iff {info : FragmentMeta} {message : List UInt8} {frameMtu : Nat}
    {frames : List SparseRadioFrame} (h : fragmentMessage info message frameMtu = .ok frames)
    {frame : SparseRadioFrame} (hframe : frame ∈ frames) : frame.Valid ↔ info.priority ≤ 15 := by
  obtain ⟨rfl, hcount, -⟩ := fragment_message_eq_ok h
  obtain ⟨index, hget⟩ := List.getElem?_of_mem hframe
  obtain ⟨hindex, hframes, hpayload⟩ := fragment_frames_get hcount hget
  have hlt : index < (fragmentPayloads message frameMtu).length :=
    (List.getElem?_eq_some_iff.mp hpayload).1
  have hpriority : frame.priority = info.priority := by
    obtain ⟨_, _, -, rfl⟩ := mem_fragment_frames.mp hframe
    rfl
  refine ⟨fun hvalid => hpriority ▸ hvalid.priority, fun hinfo => ⟨hpriority ▸ hinfo,
    (fragment_payload_length h (List.mem_of_getElem? hpayload)).2, fun hzero => ?_, ?_, ?_⟩⟩
  · rw [hzero] at hframes
    simp only [UInt8.toNat_zero] at hframes
    omega
  · rw [UInt8.le_iff_toNat_le, hframes]
    exact hcount
  · rw [UInt8.lt_iff_toNat_lt, hindex, hframes]
    exact hlt

/-- The message of a frame that is the only one of its message. -/
def singleMessage (frame : SparseRadioFrame) : ReassembledMessage where
  profile := frame.profile
  flags := frame.flags
  streamId := frame.streamId
  sequence := frame.sequence
  semanticClass := frame.semanticClass
  priority := frame.priority
  stateTag := frame.stateTag
  bytes := frame.payload

/-! ## What a push does -/

/-- What is left after `swap_remove` was there before. -/
theorem mem_of_mem_swap_remove {α : Type} {items : List α} {index : Nat} {item : α}
    (h : item ∈ swapRemove items index) : item ∈ items := by
  unfold swapRemove at h
  split at h
  · cases h
  · rename_i last hlast
    rcases List.mem_or_eq_of_mem_set ((List.dropLast_sublist _).subset h) with hmem | rfl
    · exact hmem
    · exact List.mem_of_getLast? hlast

/-- `swap_remove` takes one item. -/
theorem swap_remove_length {α : Type} (items : List α) (index : Nat) :
    (swapRemove items index).length = items.length - 1 := by
  unfold swapRemove
  split
  · rename_i hnone
    rw [List.getLast?_eq_none_iff.mp hnone]
    rfl
  · rw [List.length_dropLast, List.length_set]

/-- Removing the last item. -/
theorem swap_remove_append {α : Type} (items : List α) (last : α) :
    swapRemove (items ++ [last]) items.length = items := by
  simp [swapRemove]

namespace Reassembler

/-- The context that a frame works on: the one of its message in the table, or a fresh one. -/
def Base (self : Reassembler) (frame : SparseRadioFrame) (context : Context) : Prop :=
  (context ∈ self.contexts ∧ context.isFor frame.streamId frame.sequence) ∨
    context = .ofFrame frame

/-- The context accepts the frame: it is stored in a part of its own. -/
structure Stores (context : Context) (frame : SparseRadioFrame) : Prop where
  agrees : ¬ context.conflicts frame
  free : context.parts.getD frame.fragmentIndex.toNat none = none

variable {self next : Reassembler} {index : Nat} {context : Context} {frame : SparseRadioFrame}
  {result : Result (Option ReassembledMessage)}

/-- What `push` does to the context at an index: nothing, or it stores the frame, and a complete
context leaves the table. -/
theorem push_at_cases (h : self.pushAt index context frame = (next, result)) :
    (next = self ∧ ∀ message, result ≠ .ok (some message)) ∨
      (Stores context frame ∧
        context.totalBytes + frame.payload.length ≤ self.config.maxMessageBytes ∧
        (((context.store frame).parts.any Option.isNone = true ∧ result = .ok none ∧
            next = { self with contexts := self.contexts.set index (context.store frame) }) ∨
          ((context.store frame).parts.any Option.isNone = false ∧
            result = (context.store frame).message.map some ∧
            next = { self with
              contexts :=
                swapRemove (self.contexts.set index (context.store frame)) index }))) := by
  unfold pushAt at h
  split at h
  · cases h
    exact Or.inl ⟨rfl, fun _ => by simp⟩
  · rename_i hagrees
    split at h
    · refine Or.inl ?_
      split at h <;> cases h <;> exact ⟨rfl, fun _ => by simp⟩
    · rename_i hfree
      split at h
      · cases h
        exact Or.inl ⟨rfl, fun _ => by simp⟩
      · rename_i hbytes
        refine Or.inr ⟨⟨hagrees, hfree⟩, Nat.not_lt.mp hbytes, ?_⟩
        dsimp only at h
        split at h
        · rename_i hpart
          cases h
          exact Or.inl ⟨hpart, rfl, rfl⟩
        · rename_i hpart
          cases h
          exact Or.inr ⟨Bool.eq_false_iff.mpr hpart, rfl, rfl⟩

/-- What `push` does: it refuses the frame, or works on a base context of the table that the frame
may have extended. -/
theorem push_cases (h : self.push frame = (next, result)) :
    (next = self ∧ ∃ error, result = .error error) ∨
      (frame.Valid ∧ frame.fragmentCount ≤ self.config.maxFragments ∧
        ((∃ index context, self.position frame.streamId frame.sequence = some index ∧
            self.contexts[index]? = some context ∧
            self.pushAt index context frame = (next, result)) ∨
          (self.position frame.streamId frame.sequence = none ∧
            self.contexts.length ≠ self.config.maxContexts ∧
            { self with contexts := self.contexts ++ [Context.ofFrame frame] }.pushAt
              self.contexts.length (Context.ofFrame frame) frame = (next, result)))) := by
  unfold push at h
  split at h
  · cases h
    exact Or.inl ⟨rfl, _, rfl⟩
  · rename_i u hvalid
    split at h
    · cases h
      exact Or.inl ⟨rfl, _, rfl⟩
    · rename_i hcount
      refine or_iff_not_imp_left.mpr fun hrefused =>
        ⟨SparseRadioFrame.validate_eq_ok_iff.mp hvalid, UInt8.not_lt.mp hcount, ?_⟩
      split at h
      · rename_i index hposition
        obtain ⟨hindex, -⟩ := List.findIdx?_eq_some_iff_getElem.mp hposition
        refine Or.inl ⟨index, _, hposition, List.getElem?_eq_getElem hindex, ?_⟩
        rwa [List.getD_eq_getElem _ _ hindex] at h
      · rename_i hposition
        split at h
        · cases h
          exact absurd ⟨rfl, _, rfl⟩ hrefused
        · rename_i hfull
          exact Or.inr ⟨hposition, hfull, h⟩

/-- A push into a context changes no other. -/
theorem push_at_contexts (h : self.pushAt index context frame = (next, result)) :
    ∀ other ∈ next.contexts,
      other ∈ self.contexts ∨ (Stores context frame ∧ other = context.store frame) := by
  intro other hother
  rcases push_at_cases h with ⟨rfl, -⟩ | ⟨hstores, -, ⟨-, -, rfl⟩ | ⟨-, -, rfl⟩⟩
  · exact Or.inl hother
  · exact (List.mem_or_eq_of_mem_set hother).imp id fun heq => ⟨hstores, heq⟩
  · exact (List.mem_or_eq_of_mem_set (mem_of_mem_swap_remove hother)).imp id fun heq =>
      ⟨hstores, heq⟩

/-- A message is handed over by the frame that stores its last part. -/
theorem push_at_complete {message : ReassembledMessage}
    (h : self.pushAt index context frame = (next, .ok (some message))) :
    Stores context frame ∧ (context.store frame).parts.any Option.isNone = false ∧
      (context.store frame).message = .ok message := by
  rcases push_at_cases h with ⟨-, hnone⟩ | ⟨hstores, -, ⟨-, hresult, -⟩ | ⟨hfull, hresult, -⟩⟩
  · exact absurd rfl (hnone message)
  · cases hresult
  · refine ⟨hstores, hfull, ?_⟩
    cases hmessage : (context.store frame).message with
    | error error =>
        rw [hmessage] at hresult
        cases hresult
    | ok found =>
        rw [hmessage] at hresult
        cases hresult
        rfl

/-- The context at the position of a message is a base context. -/
theorem base_of_position (hposition : self.position frame.streamId frame.sequence = some index)
    (hcontext : self.contexts[index]? = some context) : self.Base frame context := by
  obtain ⟨hindex, hfor, -⟩ := List.findIdx?_eq_some_iff_getElem.mp hposition
  obtain ⟨_, rfl⟩ := List.getElem?_eq_some_iff.mp hcontext
  exact Or.inl ⟨List.getElem_mem hindex, hfor⟩

/-- The contexts after a push: old ones, and a base context that the frame may have extended. -/
theorem push_contexts (h : self.push frame = (next, result)) :
    ∀ other ∈ next.contexts, other ∈ self.contexts ∨
      ∃ base, self.Base frame base ∧
        (other = base ∨ (Stores base frame ∧ other = base.store frame)) := by
  intro other hother
  rcases push_cases h with ⟨rfl, -⟩ | ⟨-, -, ⟨index, context, hposition, hcontext, hpush⟩ |
    ⟨-, -, hpush⟩⟩
  · exact Or.inl hother
  · refine (push_at_contexts hpush other hother).imp id fun hstored => ?_
    exact ⟨context, base_of_position hposition hcontext, Or.inr hstored⟩
  · rcases push_at_contexts hpush other hother with hmem | hstored
    · rcases List.mem_append.mp hmem with hold | hnew
      · exact Or.inl hold
      · exact Or.inr ⟨_, Or.inr rfl, Or.inl (List.mem_singleton.mp hnew)⟩
    · exact Or.inr ⟨_, Or.inr rfl, Or.inr hstored⟩

/-- A push that completes a message has stored the last missing part of a base context. -/
theorem push_complete {message : ReassembledMessage}
    (h : self.push frame = (next, .ok (some message))) :
    ∃ base, self.Base frame base ∧ Stores base frame ∧
      (base.store frame).parts.any Option.isNone = false ∧
      (base.store frame).message = .ok message := by
  rcases push_cases h with ⟨-, error, herror⟩ |
    ⟨-, -, ⟨index, context, hposition, hcontext, hpush⟩ |
    ⟨-, -, hpush⟩⟩
  · cases herror
  · exact ⟨context, base_of_position hposition hcontext, push_at_complete hpush⟩
  · exact ⟨_, Or.inr rfl, push_at_complete hpush⟩

/-- `clear` adds no context. -/
theorem clear_contexts {streamId sequence : UInt16} :
    ∀ context ∈ (self.clear streamId sequence).contexts, context ∈ self.contexts := by
  intro context hcontext
  unfold clear at hcontext
  split at hcontext
  · exact mem_of_mem_swap_remove hcontext
  · exact hcontext

/-- The invariant of a table that `new` makes: its bounds are those that `new` checks, and it never
holds more contexts than it may. -/
structure Bounded (table : Reassembler) (config : ReassemblerConfig) : Prop where
  config_eq : table.config = config
  fragments : config.maxFragments ≠ 0
  contexts : table.contexts.length ≤ config.maxContexts

/-- A new table is within the bounds. -/
theorem new_bounded {config : ReassemblerConfig} (h : new config = .ok self) :
    self.Bounded config := by
  obtain ⟨hchecks, heq⟩ := Lib.guard_eq_ok_iff.mp h
  cases heq
  exact ⟨rfl, fun hzero => hchecks (by simp [hzero]), Nat.zero_le _⟩

/-- A push into a context keeps the bounds. -/
theorem Bounded.push_at {config : ReassemblerConfig} (hbounded : self.Bounded config)
    (h : self.pushAt index context frame = (next, result)) : next.Bounded config := by
  have hcontexts := hbounded.contexts
  rcases push_at_cases h with ⟨rfl, -⟩ | ⟨-, -, ⟨-, -, rfl⟩ | ⟨-, -, rfl⟩⟩
  · exact hbounded
  · exact ⟨hbounded.config_eq, hbounded.fragments, by simpa using hcontexts⟩
  · refine ⟨hbounded.config_eq, hbounded.fragments, ?_⟩
    simp only [swap_remove_length, List.length_set]
    omega

/-- A push keeps the bounds. -/
theorem Bounded.push {config : ReassemblerConfig} (hbounded : self.Bounded config)
    (h : self.push frame = (next, result)) : next.Bounded config := by
  have hcontexts := hbounded.contexts
  rcases push_cases h with ⟨rfl, -⟩ | ⟨-, -, ⟨index, context, -, -, hpush⟩ | ⟨-, hfree, hpush⟩⟩
  · exact hbounded
  · exact hbounded.push_at hpush
  · rw [hbounded.config_eq] at hfree
    have hadded :
        Bounded { self with contexts := self.contexts ++ [Context.ofFrame frame] } config :=
      ⟨hbounded.config_eq, hbounded.fragments, by
        rw [List.length_append, List.length_singleton]
        omega⟩
    exact hadded.push_at hpush

/-- `clear` keeps the bounds. -/
theorem Bounded.clear {config : ReassemblerConfig} (hbounded : self.Bounded config)
    (streamId sequence : UInt16) : (self.clear streamId sequence).Bounded config := by
  unfold Reassembler.clear
  split
  · refine ⟨hbounded.config_eq, hbounded.fragments, ?_⟩
    have hcontexts := hbounded.contexts
    simp only [swap_remove_length]
    omega
  · exact hbounded

/-- The search finds nothing when no message of the key is in flight. -/
theorem position_eq_none_iff {streamId sequence : UInt16} :
    self.position streamId sequence = none ↔ self.hasInFlight streamId sequence = false := by
  simp only [position, hasInFlight, List.findIdx?_eq_none_iff, List.any_eq_false,
    Bool.not_eq_true]

/-- A message of one frame that is not in flight needs a free context and room for its bytes. -/
theorem push_single (hvalid : frame.Valid) (hcount : frame.fragmentCount = 1)
    (hfragments : self.config.maxFragments ≠ 0)
    (hfresh : self.hasInFlight frame.streamId frame.sequence = false) :
    (self.contexts.length ≠ self.config.maxContexts ∧
        frame.payload.length ≤ self.config.maxMessageBytes ∧
        self.push frame = (self, .ok (some (singleMessage frame)))) ∨
      (¬ (self.contexts.length ≠ self.config.maxContexts ∧
          frame.payload.length ≤ self.config.maxMessageBytes) ∧
        ∃ error, (self.push frame).2 = .error error) := by
  have hindex : frame.fragmentIndex.toNat = 0 := by
    have hlt := UInt8.lt_iff_toNat_lt.mp hvalid.index
    rw [hcount, UInt8.toNat_one] at hlt
    omega
  have hlimit : ¬ self.config.maxFragments < frame.fragmentCount := by
    rw [hcount, UInt8.lt_iff_toNat_lt, UInt8.toNat_one]
    have hpos := UInt8.toNat_inj.not.mpr hfragments
    rw [UInt8.toNat_zero] at hpos
    omega
  have hparts : (Context.ofFrame frame).parts = [none] := by
    simp [Context.ofFrame, hcount]
  have hagrees : ¬ (Context.ofFrame frame).conflicts frame := by
    simp [Context.conflicts, Context.ofFrame]
  have hempty : (Context.ofFrame frame).parts.getD frame.fragmentIndex.toNat none = none := by
    rw [hparts, hindex]
    rfl
  unfold push
  rw [SparseRadioFrame.validate_eq_ok_iff (u := ()) |>.mpr hvalid]
  dsimp only
  rw [if_neg hlimit, position_eq_none_iff.mpr hfresh]
  dsimp only
  by_cases hfull : self.contexts.length = self.config.maxContexts
  · rw [if_pos hfull]
    exact Or.inr ⟨fun hroom => hroom.1 hfull, _, rfl⟩
  · rw [if_neg hfull, pushAt, if_neg hagrees, hempty]
    dsimp only
    by_cases hbytes : self.config.maxMessageBytes < frame.payload.length
    · rw [if_pos (by simpa [Context.ofFrame] using hbytes)]
      exact Or.inr ⟨fun hroom => Nat.not_lt.mpr hroom.2 hbytes, _, rfl⟩
    · have hstored : ((Context.ofFrame frame).store frame).parts = [some frame.payload] := by
        rw [Context.store, hparts, hindex]
        rfl
      rw [if_neg (by simpa [Context.ofFrame] using hbytes), if_neg (by simp [hstored])]
      refine Or.inl ⟨hfull, Nat.not_lt.mp hbytes, ?_⟩
      rw [List.set_append_right _ _ (Nat.le_refl _), Nat.sub_self, List.set_cons_zero,
        swap_remove_append, Context.message, hstored]
      simp [Context.joinParts, Except.bind, Except.map, Context.store, Context.ofFrame,
        singleMessage]

end Reassembler

/-! ## Carrying a message -/

/-- Every fragment in the context is the one of the given payloads. -/
structure Carries (info : FragmentMeta) (payloads : List (List UInt8)) (context : Context) :
    Prop where
  source : context.toFragmentMeta = info
  length : context.parts.length = payloads.length
  part : ∀ (index : Nat) payload, context.parts[index]? = some (some payload) →
    payloads[index]? = some payload

namespace Carries

variable {info : FragmentMeta} {payloads : List (List UInt8)} {context : Context}
  {frame : SparseRadioFrame}

/-- A new context carries the part of its frame. -/
theorem of_frame (hframe : frame ∈ fragmentFrames info payloads) (hcount : payloads.length ≤ 32) :
    Carries info payloads (.ofFrame frame) := by
  obtain ⟨index, payload, -, rfl⟩ := mem_fragment_frames.mp hframe
  have hcast : (UInt8.ofNat payloads.length).toNat = payloads.length :=
    UInt8.toNat_ofNat_of_lt' (Nat.lt_of_le_of_lt hcount (by decide))
  refine ⟨rfl, by simp [Context.ofFrame, FragmentMeta.frame, hcast], fun i part hpart => ?_⟩
  have hmem := List.mem_of_getElem? hpart
  simp [Context.ofFrame] at hmem

/-- A stored frame of the message keeps that the context carries its parts. -/
theorem store (h : Carries info payloads context) (hframe : frame ∈ fragmentFrames info payloads)
    (hcount : payloads.length ≤ 32) : Carries info payloads (context.store frame) := by
  obtain ⟨index, payload, hpayload, rfl⟩ := mem_fragment_frames.mp hframe
  have hindex : index < payloads.length := (List.getElem?_eq_some_iff.mp hpayload).1
  have hcast : (UInt8.ofNat index).toNat = index :=
    UInt8.toNat_ofNat_of_lt' (Nat.lt_of_lt_of_le hindex (Nat.le_trans hcount (by decide)))
  refine ⟨h.source, by simpa [Context.store] using h.length, fun i part hpart => ?_⟩
  simp only [Context.store, FragmentMeta.frame, hcast, List.getElem?_set] at hpart
  split at hpart
  · rename_i heq
    subst heq
    split at hpart
    · rw [hpayload, Option.some.inj (Option.some.inj hpart)]
    · cases hpart
  · exact h.part i part hpart

/-- The parts that are all there join to the payloads. -/
theorem join_parts {parts : List (Option (List UInt8))} {payloads : List (List UInt8)}
    (hlength : parts.length = payloads.length)
    (hpart : ∀ (index : Nat) payload, parts[index]? = some (some payload) →
      payloads[index]? = some payload)
    (hcomplete : parts.any Option.isNone = false) :
    Context.joinParts parts = .ok payloads.flatten := by
  induction parts generalizing payloads with
  | nil =>
      rw [List.length_eq_zero_iff.mp hlength.symm]
      rfl
  | cons part parts ih =>
      cases payloads with
      | nil => cases hlength
      | cons payload payloads =>
          cases part with
          | none => cases hcomplete
          | some bytes =>
              have hfirst : payload = bytes := Option.some.inj (hpart 0 bytes rfl)
              have hrest := ih (Nat.succ.inj hlength) (fun index => hpart (index + 1)) hcomplete
              rw [Context.joinParts, hrest, hfirst]
              rfl

/-- A complete context gives the message. -/
theorem message (h : Carries info payloads context)
    (hcomplete : context.parts.any Option.isNone = false) :
    context.message = .ok { toFragmentMeta := info, bytes := payloads.flatten } := by
  rw [Context.message, join_parts h.length h.part hcomplete, h.source]
  rfl

end Carries

end LatentMesh.AirCore
