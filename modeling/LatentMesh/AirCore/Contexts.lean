import LatentMesh.AirCore.Reassembly
import LatentMesh.Lib.Keyed

/-!
# The contexts of the table

A message is known by its stream and sequence, and the contexts of the table have distinct keys. A
push changes the context of its own message only (`Reassembler.push_find_other`).
-/

namespace LatentMesh.AirCore

open LatentMesh.Lib

/-- What identifies a message. -/
def FragmentMeta.key (self : FragmentMeta) : UInt16 × UInt16 := (self.streamId, self.sequence)

/-- The key of the message that a frame belongs to. -/
def SparseRadioFrame.key (self : SparseRadioFrame) : UInt16 × UInt16 :=
  (self.streamId, self.sequence)

namespace Context

/-- The key of the message that a context collects. -/
def key (self : Context) : UInt16 × UInt16 := self.toFragmentMeta.key

/-- The test of a context compares its key. -/
theorem is_for_iff {self : Context} {streamId sequence : UInt16} :
    self.isFor streamId sequence = true ↔ self.key = (streamId, sequence) := by
  simp [isFor, key, FragmentMeta.key]

/-- A new context has no part. -/
theorem of_frame_part (frame : SparseRadioFrame) (index : Nat) :
    (ofFrame frame).parts.getD index none = none := by
  rw [List.getD_eq_getElem?_getD]
  show ((List.replicate frame.fragmentCount.toNat none)[index]?).getD none = none
  rw [List.getElem?_replicate]
  split <;> rfl

/-- A new context has the key of its frame. -/
@[simp] theorem key_of_frame (frame : SparseRadioFrame) : (ofFrame frame).key = frame.key := rfl

/-- Storing a frame keeps the key. -/
@[simp] theorem key_store (self : Context) (frame : SparseRadioFrame) :
    (self.store frame).key = self.key := rfl

end Context

/-- Removing by swapping is removing, up to the order. -/
theorem swap_remove_perm {α : Type} {items : List α} {index : Nat} (h : index < items.length) :
    (swapRemove items index).Perm (items.eraseIdx index) := by
  obtain ⟨init, last, rfl⟩ : ∃ init last, items = init ++ [last] :=
    ⟨_, _, (List.dropLast_append_getLast (List.ne_nil_of_length_pos (Nat.zero_lt_of_lt h))).symm⟩
  rw [List.length_append, List.length_singleton] at h
  unfold swapRemove
  rw [List.getLast?_concat]
  show ((init ++ [last]).set index last).dropLast.Perm _
  rcases Nat.lt_or_ge index init.length with hinit | hinit
  · rw [List.set_append_left _ _ hinit, List.dropLast_concat,
      List.eraseIdx_append_of_lt_length hinit]
    exact (List.set_perm_cons_eraseIdx hinit last).trans (List.perm_append_singleton _ _).symm
  · have hindex : index = init.length := by omega
    subst hindex
    rw [List.set_append_right _ _ (Nat.le_refl _), Nat.sub_self, List.set_cons_zero,
      List.dropLast_concat, List.eraseIdx_append_of_length_le (Nat.le_refl _), Nat.sub_self,
      List.eraseIdx_cons_zero, List.append_nil]

namespace Reassembler

variable {self next : Reassembler} {index : Nat} {context : Context} {frame : SparseRadioFrame}
  {result : Result (Option ReassembledMessage)}

/-- The context of a message. -/
def contextOf (self : Reassembler) (key : UInt16 × UInt16) : Option Context :=
  Keyed.find Context.key self.contexts key

/-- No two contexts collect the same message. -/
def DistinctKeys (self : Reassembler) : Prop := Keyed.Distinct Context.key self.contexts

/-- A new table has no two contexts of one key. -/
theorem new_distinct {config : ReassemblerConfig} (h : new config = .ok self) :
    self.DistinctKeys := by
  obtain ⟨-, heq⟩ := Lib.guard_eq_ok_iff.mp h
  cases heq
  exact List.nodup_nil

/-- There is no context of a key when the search finds none. -/
theorem context_of_eq_none_iff {key : UInt16 × UInt16} :
    self.contextOf key = none ↔ self.position key.1 key.2 = none := by
  rw [contextOf, Keyed.find_eq_none_iff, position, List.findIdx?_eq_none_iff]
  simp only [← Bool.not_eq_true, Context.is_for_iff, Prod.mk.eta, ne_eq]

/-- The position of a message is the one of its context. -/
theorem position_of_context_of (hdistinct : self.DistinctKeys) {key : UInt16 × UInt16}
    (h : self.contextOf key = some context) :
    ∃ index, self.position key.1 key.2 = some index ∧ self.contexts[index]? = some context := by
  cases hposition : self.position key.1 key.2 with
  | none =>
      rw [context_of_eq_none_iff.mpr hposition] at h
      cases h
  | some index =>
      obtain ⟨hindex, hfor, -⟩ := List.findIdx?_eq_some_iff_getElem.mp hposition
      refine ⟨index, rfl, ?_⟩
      rw [List.getElem?_eq_getElem hindex, ← h, eq_comm, contextOf,
        Keyed.find_eq_some_iff hdistinct]
      exact ⟨List.getElem_mem hindex, Context.is_for_iff.mp hfor⟩

/-! ## A push of a valid frame -/

/-- A frame of a message in flight works on the context of that message. -/
theorem push_eq_push_at (hvalid : frame.Valid)
    (hcount : frame.fragmentCount ≤ self.config.maxFragments) (hdistinct : self.DistinctKeys)
    (h : self.contextOf frame.key = some context) :
    ∃ index, self.contexts[index]? = some context ∧
      self.push frame = self.pushAt index context frame := by
  obtain ⟨index, hposition, hget⟩ := position_of_context_of hdistinct h
  replace hposition : self.position frame.streamId frame.sequence = some index := hposition
  refine ⟨index, hget, ?_⟩
  unfold push
  rw [SparseRadioFrame.validate_eq_ok_iff (u := ()) |>.mpr hvalid]
  dsimp only
  rw [if_neg (UInt8.not_lt.mpr hcount), hposition]
  dsimp only
  rw [List.getD_eq_getElem?_getD, hget, Option.getD_some]

/-- The first frame of a message works on a new context. -/
theorem push_eq_push_at_new (hvalid : frame.Valid)
    (hcount : frame.fragmentCount ≤ self.config.maxFragments)
    (h : self.contextOf frame.key = none)
    (hroom : self.contexts.length ≠ self.config.maxContexts) :
    self.push frame = Reassembler.pushAt
      { self with contexts := self.contexts ++ [Context.ofFrame frame] } self.contexts.length
      (Context.ofFrame frame) frame := by
  have hposition : self.position frame.streamId frame.sequence = none :=
    context_of_eq_none_iff.mp h
  unfold push
  rw [SparseRadioFrame.validate_eq_ok_iff (u := ()) |>.mpr hvalid]
  dsimp only
  rw [if_neg (UInt8.not_lt.mpr hcount), hposition]
  dsimp only
  rw [if_neg hroom]

/-- A fragment that is there already is ignored. -/
theorem push_at_duplicate (hagrees : ¬ context.conflicts frame)
    (hpart : context.parts.getD frame.fragmentIndex.toNat none = some frame.payload) :
    self.pushAt index context frame = (self, .ok none) := by
  rw [pushAt, if_neg hagrees, hpart]
  dsimp only
  rw [if_pos rfl]

/-- A new fragment is stored, and a complete context leaves the table. -/
theorem push_at_new (hagrees : ¬ context.conflicts frame)
    (hpart : context.parts.getD frame.fragmentIndex.toNat none = none)
    (hbytes : context.totalBytes + frame.payload.length ≤ self.config.maxMessageBytes) :
    self.pushAt index context frame =
      if (context.store frame).parts.any Option.isNone then
        ({ self with contexts := self.contexts.set index (context.store frame) }, .ok none)
      else
        ({ self with contexts := swapRemove (self.contexts.set index (context.store frame)) index },
          (context.store frame).message.map some) := by
  rw [pushAt, if_neg hagrees, hpart]
  dsimp only
  rw [if_neg (Nat.not_lt.mpr hbytes)]

/-! ## What a push leaves alone -/

/-- A push into a context keeps the keys distinct. -/
theorem push_at_distinct (hdistinct : self.DistinctKeys)
    (hcontext : self.contexts[index]? = some context)
    (h : self.pushAt index context frame = (next, result)) : next.DistinctKeys := by
  have hstored : Keyed.Distinct Context.key (self.contexts.set index (context.store frame)) :=
    Keyed.Distinct.set hdistinct hcontext (Context.key_store _ _)
  rcases push_at_cases h with ⟨rfl, -⟩ | ⟨-, -, ⟨-, -, rfl⟩ | ⟨-, -, rfl⟩⟩
  · exact hdistinct
  · exact hstored
  · have hindex : index < (self.contexts.set index (context.store frame)).length := by
      rw [List.length_set]
      exact (List.getElem?_eq_some_iff.mp hcontext).1
    exact (hstored.erase index).perm (swap_remove_perm hindex)

/-- A push into a context leaves those of other keys as they are. -/
theorem push_at_find_other (hdistinct : self.DistinctKeys)
    (hcontext : self.contexts[index]? = some context)
    (h : self.pushAt index context frame = (next, result)) {key : UInt16 × UInt16}
    (hother : context.key ≠ key) : next.contextOf key = self.contextOf key := by
  have hset : Keyed.find Context.key (self.contexts.set index (context.store frame)) key =
      self.contextOf key :=
    Keyed.find_set_other hcontext (Context.key_store _ _) hother
  rcases push_at_cases h with ⟨rfl, -⟩ | ⟨-, -, ⟨-, -, rfl⟩ | ⟨-, -, rfl⟩⟩
  · rfl
  · exact hset
  · have hindex : index < (self.contexts.set index (context.store frame)).length := by
      rw [List.length_set]
      exact (List.getElem?_eq_some_iff.mp hcontext).1
    have hstored : Keyed.Distinct Context.key (self.contexts.set index (context.store frame)) :=
      Keyed.Distinct.set hdistinct hcontext (Context.key_store _ _)
    have hget : (self.contexts.set index (context.store frame))[index]? =
        some (context.store frame) :=
      List.getElem?_set_self (by rwa [List.length_set] at hindex)
    show Keyed.find Context.key (swapRemove _ index) key = _
    rw [Keyed.find_perm (hstored.erase index) (swap_remove_perm hindex),
      Keyed.find_erase_other hget hother, hset]

/-- The context that a frame of a new message adds. -/
theorem append_distinct (hdistinct : self.DistinctKeys)
    (hnew : self.position frame.streamId frame.sequence = none) :
    Reassembler.DistinctKeys
      { self with contexts := self.contexts ++ [Context.ofFrame frame] } :=
  have hnone : self.contextOf frame.key = none := context_of_eq_none_iff.mpr hnew
  Keyed.Distinct.append_new hdistinct hnone

/-- A push keeps the keys distinct. -/
theorem push_distinct (hdistinct : self.DistinctKeys)
    (h : self.push frame = (next, result)) : next.DistinctKeys := by
  rcases push_cases h with ⟨rfl, -⟩ | ⟨-, -, ⟨index, context, -, hcontext, hpush⟩ |
    ⟨hnew, -, hpush⟩⟩
  · exact hdistinct
  · exact push_at_distinct hdistinct hcontext hpush
  · exact push_at_distinct (append_distinct hdistinct hnew) List.getElem?_concat_length hpush

/-- A push does not disturb the contexts of other messages. -/
theorem push_find_other (hdistinct : self.DistinctKeys)
    (h : self.push frame = (next, result)) {key : UInt16 × UInt16} (hother : frame.key ≠ key) :
    next.contextOf key = self.contextOf key := by
  rcases push_cases h with ⟨rfl, -⟩ | ⟨-, -, ⟨index, context, hposition, hcontext, hpush⟩ |
    ⟨hnew, -, hpush⟩⟩
  · rfl
  · have hkey : context.key = frame.key := by
      obtain ⟨hindex, hfor, -⟩ := List.findIdx?_eq_some_iff_getElem.mp hposition
      obtain ⟨_, rfl⟩ := List.getElem?_eq_some_iff.mp hcontext
      exact Context.is_for_iff.mp hfor
    exact push_at_find_other hdistinct hcontext hpush (hkey ▸ hother)
  · rw [push_at_find_other (append_distinct hdistinct hnew) List.getElem?_concat_length hpush
      hother]
    exact Keyed.find_append_other hother

/-- A context without a missing part gives a message. -/
theorem message_of_full (hfull : context.parts.any Option.isNone = false) :
    ∃ message, context.message = .ok message := by
  have hjoin : Context.joinParts context.parts =
      .ok (context.parts.map fun part => part.getD []).flatten :=
    Carries.join_parts (by rw [List.length_map])
      (fun index payload hpart => by rw [List.getElem?_map, hpart]; rfl) hfull
  rw [Context.message, hjoin]
  exact ⟨_, rfl⟩

/-- The first frame of a message that has room in the table, but a payload that is longer than a
message of the table may be. -/
structure Oversized (table : Reassembler) (frame : SparseRadioFrame) : Prop where
  count : frame.fragmentCount ≤ table.config.maxFragments
  fresh : table.hasInFlight frame.streamId frame.sequence = false
  room : table.contexts.length ≠ table.config.maxContexts
  payload : table.config.maxMessageBytes < frame.payload.length

/-- A frame agrees with the context that is created for it. -/
theorem of_frame_agrees (frame : SparseRadioFrame) : ¬ (Context.ofFrame frame).conflicts frame := by
  simp [Context.conflicts, Context.ofFrame]

/-- A refusal by the context at an index changes nothing. -/
theorem push_at_refused {error : AirError}
    (h : self.pushAt index context frame = (next, .error error)) : next = self := by
  rcases push_at_cases h with ⟨hsame, -⟩ | ⟨-, -, ⟨-, hresult, -⟩ | ⟨hfull, hresult, -⟩⟩
  · exact hsame
  · cases hresult
  · obtain ⟨message, hmessage⟩ := message_of_full hfull
    rw [hmessage] at hresult
    cases hresult

/-- A push that fails changes nothing, or it leaves the context that it created for an oversized
frame. -/
theorem push_error_cases {error : AirError} (h : self.push frame = (next, .error error)) :
    next = self ∨
      (self.Oversized frame ∧
        next = { self with contexts := self.contexts ++ [Context.ofFrame frame] }) := by
  rcases push_cases h with ⟨hsame, -⟩ | ⟨hvalid, hcount, ⟨_, _, -, -, hpush⟩ | ⟨hnew, hroom, hpush⟩⟩
  · exact Or.inl hsame
  · exact Or.inl (push_at_refused hpush)
  · refine Or.inr ⟨⟨hcount, ?_, hroom, ?_⟩, push_at_refused hpush⟩
    · exact position_eq_none_iff.mp hnew
    · -- the new context stores every payload that is short enough
      by_contra hfits
      have hbytes : (Context.ofFrame frame).totalBytes + frame.payload.length ≤
          ({ self with contexts := self.contexts ++ [Context.ofFrame frame] } :
            Reassembler).config.maxMessageBytes := by
        show 0 + frame.payload.length ≤ _
        rw [Nat.zero_add]
        exact Nat.not_lt.mp hfits
      rw [push_at_new (of_frame_agrees frame)
        (Context.of_frame_part frame frame.fragmentIndex.toNat) hbytes] at hpush
      split at hpush
      · cases hpush
      · rename_i hfull
        obtain ⟨message, hmessage⟩ := message_of_full (Bool.eq_false_iff.mpr hfull)
        rw [hmessage] at hpush
        cases hpush

/-- A push keeps the bounds of the table. -/
theorem push_config (h : self.push frame = (next, result)) : next.config = self.config := by
  rcases push_cases h with ⟨rfl, -⟩ | ⟨-, -, ⟨_, _, -, -, hpush⟩ | ⟨-, -, hpush⟩⟩
  · rfl
  · rcases push_at_cases hpush with ⟨rfl, -⟩ | ⟨-, -, ⟨-, -, rfl⟩ | ⟨-, -, rfl⟩⟩ <;> rfl
  · rcases push_at_cases hpush with ⟨rfl, -⟩ | ⟨-, -, ⟨-, -, rfl⟩ | ⟨-, -, rfl⟩⟩ <;> rfl

/-- Every context after a push has the key of an old one or of the frame. -/
theorem push_keys (h : self.push frame = (next, result)) :
    ∀ context ∈ next.contexts,
      context.key = frame.key ∨ ∃ old ∈ self.contexts, context.key = old.key := by
  intro context hcontext
  rcases push_contexts h context hcontext with hold | ⟨base, hbase, hcases⟩
  · exact Or.inr ⟨context, hold, rfl⟩
  · refine Or.inl ?_
    have hkey : base.key = frame.key := by
      rcases hbase with ⟨-, hfor⟩ | rfl
      · exact Context.is_for_iff.mp hfor
      · rfl
    rcases hcases with rfl | ⟨-, rfl⟩
    · exact hkey
    · exact hkey

/-! ## The frame that completes a message -/

/-- The context that a push of the frame works on. -/
def baseOf (self : Reassembler) (frame : SparseRadioFrame) : Context :=
  (self.contextOf frame.key).getD (.ofFrame frame)

/-- The frame is the last missing fragment of its message, and the table has room for it. -/
structure LastMissing (table : Reassembler) (frame : SparseRadioFrame) : Prop where
  valid : frame.Valid
  count : frame.fragmentCount ≤ table.config.maxFragments
  room : table.contextOf frame.key = none → table.contexts.length ≠ table.config.maxContexts
  stores : Stores (table.baseOf frame) frame
  bytes : (table.baseOf frame).totalBytes + frame.payload.length ≤ table.config.maxMessageBytes
  others : ∀ index < frame.fragmentCount.toNat, index ≠ frame.fragmentIndex.toNat →
    (table.baseOf frame).parts.getD index none ≠ none

/-- A stored frame completes its context when it fills the only missing part. -/
theorem store_full_iff (hvalid : frame.Valid) (hstores : Stores context frame) :
    (context.store frame).parts.any Option.isNone = false ↔
      ∀ index < frame.fragmentCount.toNat, index ≠ frame.fragmentIndex.toNat →
        context.parts.getD index none ≠ none := by
  have hlength : context.parts.length = frame.fragmentCount.toNat := by
    by_contra hne
    exact hstores.agrees (by simp [Context.conflicts, hne])
  have hown : frame.fragmentIndex.toNat < context.parts.length :=
    hlength ▸ UInt8.lt_iff_toNat_lt.mp hvalid.index
  rw [List.any_eq_false]
  constructor
  · intro hfull index hindex hother hnone
    rw [← hlength] at hindex
    rw [List.getD_eq_getElem _ _ hindex] at hnone
    refine hfull (context.parts[index]) ?_ (by rw [hnone]; rfl)
    refine List.mem_of_getElem? (i := index) ?_
    show (context.parts.set frame.fragmentIndex.toNat (some frame.payload))[index]? = _
    rw [List.getElem?_set_ne (Ne.symm hother), List.getElem?_eq_getElem hindex]
  · intro hfilled part hpart hnone
    obtain ⟨index, hget⟩ := List.getElem?_of_mem hpart
    replace hget : (context.parts.set frame.fragmentIndex.toNat (some frame.payload))[index]? =
      some part := hget
    rw [Option.isNone_iff_eq_none.mp hnone] at hget
    -- a missing part is not the one that the frame fills
    by_cases hother : index = frame.fragmentIndex.toNat
    · rw [hother, List.getElem?_set_self hown] at hget
      cases hget
    · rw [List.getElem?_set_ne (Ne.symm hother)] at hget
      have hindex := (List.getElem?_eq_some_iff.mp hget).1
      refine hfilled index (hlength ▸ hindex) hother ?_
      rw [List.getD_eq_getElem?_getD, hget]
      rfl

/-- A message is handed over with the metadata of its context. -/
theorem message_info {message : ReassembledMessage} (h : context.message = .ok message) :
    message.toFragmentMeta = context.toFragmentMeta := by
  unfold Context.message at h
  obtain ⟨bytes, -, heq⟩ := Lib.bind_eq_ok_iff.mp h
  cases heq
  rfl

/-- A complete context leaves the table. -/
theorem push_at_full (hdistinct : self.DistinctKeys)
    (hcontext : self.contexts[index]? = some context) (hstores : Stores context frame)
    (hbytes : context.totalBytes + frame.payload.length ≤ self.config.maxMessageBytes)
    (hfull : (context.store frame).parts.any Option.isNone = false) :
    ∃ next, self.pushAt index context frame = (next, (context.store frame).message.map some) ∧
      next.contextOf context.key = none := by
  have hset : Keyed.Distinct Context.key (self.contexts.set index (context.store frame)) :=
    Keyed.Distinct.set hdistinct hcontext (Context.key_store _ _)
  have hindex := (List.getElem?_eq_some_iff.mp hcontext).1
  rw [push_at_new hstores.agrees hstores.free hbytes, hfull]
  refine ⟨_, rfl, ?_⟩
  show Keyed.find Context.key (swapRemove _ index) (context.store frame).key = none
  rw [Keyed.find_perm (hset.erase index)
    (swap_remove_perm (by rw [List.length_set]; exact hindex))]
  exact Keyed.find_erase_self hset (List.getElem?_set_self hindex)

/-- The last missing fragment of a message returns it, and its context is gone. -/
theorem LastMissing.push (hdistinct : self.DistinctKeys) (h : self.LastMissing frame) :
    ∃ next message, self.push frame = (next, .ok (some message)) ∧
      message.toFragmentMeta.key = frame.key ∧ next.contextOf frame.key = none := by
  obtain ⟨hvalid, hcount, hroom, hstores, hbytes, hothers⟩ := h
  have hfull := (store_full_iff hvalid hstores).mpr hothers
  obtain ⟨message, hmessage⟩ := message_of_full hfull
  have hinfo := message_info hmessage
  unfold baseOf at hstores hbytes hfull hmessage hinfo
  cases hcontext : self.contextOf frame.key with
  | some context =>
      rw [hcontext, Option.getD_some] at hstores hbytes hfull hmessage hinfo
      obtain ⟨index, hget, hpush⟩ := push_eq_push_at hvalid hcount hdistinct hcontext
      have hkey : context.key = frame.key := (Keyed.mem_of_find hcontext).2
      obtain ⟨next, hlast, hgone⟩ := push_at_full hdistinct hget hstores hbytes hfull
      rw [hmessage] at hlast
      rw [hpush, ← hkey]
      exact ⟨next, message, hlast, congrArg FragmentMeta.key hinfo, hgone⟩
  | none =>
      rw [hcontext, Option.getD_none] at hstores hbytes hfull hmessage hinfo
      have hadded := append_distinct hdistinct (context_of_eq_none_iff.mp hcontext)
      obtain ⟨next, hlast, hgone⟩ :=
        push_at_full hadded List.getElem?_concat_length hstores hbytes hfull
      rw [hmessage] at hlast
      rw [push_eq_push_at_new hvalid hcount hcontext (hroom hcontext)]
      exact ⟨next, message, hlast, congrArg FragmentMeta.key hinfo, hgone⟩

/-- What a push on a context needs to return the message. -/
theorem push_at_returns {index : Nat} {message : ReassembledMessage} (hvalid : frame.Valid)
    (h : self.pushAt index context frame = (next, .ok (some message))) :
    Stores context frame ∧
      context.totalBytes + frame.payload.length ≤ self.config.maxMessageBytes ∧
      ∀ other < frame.fragmentCount.toNat, other ≠ frame.fragmentIndex.toNat →
        context.parts.getD other none ≠ none := by
  rcases push_at_cases h with ⟨-, hnothing⟩ | ⟨hstores, hbytes, ⟨-, hnone, -⟩ | ⟨hfull, -⟩⟩
  · exact absurd rfl (hnothing message)
  · cases hnone
  · exact ⟨hstores, hbytes, (store_full_iff hvalid hstores).mp hfull⟩

/-- A push returns a message exactly when its frame is the last missing one. -/
theorem push_returns_iff (hdistinct : self.DistinctKeys) :
    (∃ message, (self.push frame).2 = .ok (some message)) ↔ self.LastMissing frame := by
  constructor
  · rintro ⟨message, hresult⟩
    have hpush : self.push frame = ((self.push frame).1, .ok (some message)) :=
      Prod.ext rfl hresult
    rcases push_cases hpush with ⟨-, _, herror⟩ |
      ⟨hvalid, hcount, ⟨index, context, hposition, hcontext, hstored⟩ | ⟨hposition, hroom, hstored⟩⟩
    · cases herror
    · -- the position that the search finds is the one of the key
      have hkey : context.key = frame.key := by
        obtain ⟨hindex, hfor, -⟩ := List.findIdx?_eq_some_iff_getElem.mp hposition
        obtain ⟨_, rfl⟩ := List.getElem?_eq_some_iff.mp hcontext
        exact Context.is_for_iff.mp hfor
      have hfound : self.contextOf frame.key = some context :=
        (Keyed.find_eq_some_iff hdistinct).mpr ⟨List.mem_of_getElem? hcontext, hkey⟩
      have hbase : self.baseOf frame = context := by rw [baseOf, hfound, Option.getD_some]
      obtain ⟨hstores, hbytes, hothers⟩ := push_at_returns hvalid hstored
      rw [← hbase] at hstores hbytes hothers
      refine ⟨hvalid, hcount, fun hnone => ?_, hstores, hbytes, hothers⟩
      rw [hfound] at hnone
      cases hnone
    · have hnone : self.contextOf frame.key = none := context_of_eq_none_iff.mpr hposition
      have hbase : self.baseOf frame = .ofFrame frame := by rw [baseOf, hnone, Option.getD_none]
      obtain ⟨hstores, hbytes, hothers⟩ := push_at_returns hvalid hstored
      rw [← hbase] at hstores hbytes hothers
      exact ⟨hvalid, hcount, fun _ => hroom, hstores, hbytes, hothers⟩
  · intro h
    obtain ⟨_, message, hpush, -⟩ := h.push hdistinct
    exact ⟨message, by rw [hpush]⟩

/-- Every part that is filled after a push was filled before, or it is that of the frame. -/
theorem push_parts (h : self.push frame = (next, result)) :
    ∀ context ∈ next.contexts, ∀ index, context.parts.getD index none ≠ none →
      (∃ old ∈ self.contexts, old.key = context.key ∧ old.parts.getD index none ≠ none) ∨
        (context.key = frame.key ∧ index = frame.fragmentIndex.toNat) := by
  intro context hcontext index hfilled
  rcases push_contexts h context hcontext with hold | ⟨base, hbase, hcases⟩
  · exact Or.inl ⟨context, hold, rfl, hfilled⟩
  · have hbaseFilled : base.parts.getD index none ≠ none →
        ∃ old ∈ self.contexts, old.key = base.key ∧ old.parts.getD index none ≠ none := by
      intro hpart
      rcases hbase with ⟨hold, -⟩ | rfl
      · exact ⟨base, hold, rfl, hpart⟩
      · exact absurd (Context.of_frame_part frame index) hpart
    rcases hcases with rfl | ⟨-, rfl⟩
    · exact Or.inl (hbaseFilled hfilled)
    · by_cases hown : index = frame.fragmentIndex.toNat
      · refine Or.inr ⟨?_, hown⟩
        rcases hbase with ⟨-, hfor⟩ | rfl
        · exact Context.is_for_iff.mp hfor
        · rfl
      · refine Or.inl (hbaseFilled ?_)
        rw [List.getD_eq_getElem?_getD] at hfilled ⊢
        rwa [show (base.store frame).parts = base.parts.set frame.fragmentIndex.toNat
          (some frame.payload) from rfl, List.getElem?_set_ne (Ne.symm hown)] at hfilled

end Reassembler

end LatentMesh.AirCore
