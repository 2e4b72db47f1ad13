import LatentMesh.AirRadio.StreamAgreement

/-!
# Streams cut into slices

`push_slice` stops at the first malformed burst of a slice: it returns no frame of that slice and
leaves the rest of it unread. Which streams survive every way of cutting them is settled by
`SoftBurstReceiver.slicing_independent_iff`.
-/

namespace LatentMesh.AirRadio

open LatentMesh.AirCore

namespace SoftBurstReceiver

/-- The frames among the results of a stream. -/
def framesOf (results : List (Result (List UInt8))) : List (List UInt8) :=
  results.filterMap Except.toOption

/-- The frames of a slice, none if `push_slice` returns an error. -/
def sliceFrames : Result (List (List UInt8)) → List (List UInt8)
  | .ok frames => frames
  | .error _ => []

/-- Consecutive slices, where the caller goes on with the next slice after an error: the receiver
behind them and all frames returned. -/
def pushSlices (self : SoftBurstReceiver) :
    List (List Int8) → SoftBurstReceiver × List (List UInt8)
  | [] => (self, [])
  | slice :: rest =>
      let (next, result) := self.pushSlice slice
      let (last, frames) := next.pushSlices rest
      (last, sliceFrames result ++ frames)

/-- All ways of cutting a stream into slices return the same frames and leave the receiver in the
same state, so that the same LLRs have been examined. -/
def SlicingIndependent (self : SoftBurstReceiver) (llrs : List Int8) : Prop :=
  ∀ slices others : List (List Int8), slices.flatten = llrs → others.flatten = llrs →
    self.pushSlices slices = self.pushSlices others

/-- No burst of a stream is malformed. -/
def NoneMalformed (self : SoftBurstReceiver) (llrs : List Int8) : Prop :=
  ∀ result ∈ (self.feed llrs).2, ∃ frame, result = .ok frame

/-- The only result of a stream is a malformed burst, which its last LLR completes. -/
def MalformedAtEnd (self : SoftBurstReceiver) (llrs : List Int8) : Prop :=
  ∃ front last error, llrs = front ++ [last] ∧ (self.feed front).2 = [] ∧
    ((self.feed front).1.pushLlr last).2 = .error error

variable {self : SoftBurstReceiver}

/-- A slice is pushed value by value up to an error. -/
theorem push_slice_cons (llr : Int8) (rest : List Int8) :
    self.pushSlice (llr :: rest) = match self.pushLlr llr with
      | (next, .error error) => (next, .error error)
      | (next, .ok frame) => match next.pushSlice rest with
          | (last, .error error) => (last, .error error)
          | (last, .ok frames) => (last, .ok (frame.toList ++ frames)) := rfl

/-- No value, no malformed burst. -/
theorem none_malformed_nil : self.NoneMalformed [] := fun _ hmem => (List.not_mem_nil hmem).elim

/-- A value without an error leaves the question to the others. -/
theorem none_malformed_cons {llr : Int8} {next : SoftBurstReceiver} {frame : Option (List UInt8)}
    (hpush : self.pushLlr llr = (next, .ok frame)) (rest : List Int8) :
    self.NoneMalformed (llr :: rest) ↔ next.NoneMalformed rest := by
  rw [NoneMalformed, feed_cons, hpush]
  cases frame with
  | none => rfl
  | some frame =>
      refine ⟨fun h result hmem => h result (List.mem_cons_of_mem _ hmem), fun h result hmem => ?_⟩
      rcases List.mem_cons.mp hmem with rfl | hmem
      · exact ⟨frame, rfl⟩
      · exact h result hmem

/-- A value with an error ends a malformed burst. -/
theorem not_none_malformed_cons {llr : Int8} {next : SoftBurstReceiver} {error : AirError}
    (hpush : self.pushLlr llr = (next, .error error)) (rest : List Int8) :
    ¬ self.NoneMalformed (llr :: rest) := fun h => by
  rw [NoneMalformed, feed_cons, hpush] at h
  obtain ⟨frame, hframe⟩ := h (.error error) (List.mem_cons_self ..)
  cases hframe

/-- The parts of values without malformed bursts have none. -/
theorem NoneMalformed.append {first second : List Int8}
    (h : self.NoneMalformed (first ++ second)) :
    self.NoneMalformed first ∧ (self.feed first).1.NoneMalformed second := by
  rw [NoneMalformed, feed_append] at h
  exact ⟨fun result hmem => h result (List.mem_append_left _ hmem),
    fun result hmem => h result (List.mem_append_right _ hmem)⟩

/-- A stream up to its first malformed burst. -/
theorem exists_first_malformed {llrs : List Int8} (h : ¬ self.NoneMalformed llrs) :
    ∃ front llr rest error, llrs = front ++ llr :: rest ∧ self.NoneMalformed front ∧
      ((self.feed front).1.pushLlr llr).2 = .error error := by
  induction llrs generalizing self with
  | nil => exact absurd none_malformed_nil h
  | cons llr llrs ih =>
      cases hpush : self.pushLlr llr with
      | mk next result =>
          cases result with
          | error error =>
              refine ⟨[], llr, llrs, error, rfl, none_malformed_nil, ?_⟩
              change (self.pushLlr llr).2 = _
              rw [hpush]
          | ok frame =>
              obtain ⟨front, last, rest, error, rfl, hfront, herror⟩ :=
                ih ((none_malformed_cons hpush llrs).not.mp h)
              refine ⟨llr :: front, last, rest, error, rfl, ?_, ?_⟩
              · exact (none_malformed_cons hpush front).mpr hfront
              · rwa [feed_cons, hpush]

/-! ## One slice -/

/-- A slice without a malformed burst is pushed whole. -/
theorem push_slice_of_none_malformed {slice : List Int8} (h : self.NoneMalformed slice) :
    self.pushSlice slice = ((self.feed slice).1, .ok (framesOf (self.feed slice).2)) := by
  induction slice generalizing self with
  | nil => rfl
  | cons llr rest ih =>
      cases hpush : self.pushLlr llr with
      | mk next result =>
          cases result with
          | error error => exact absurd h (not_none_malformed_cons hpush rest)
          | ok frame =>
              have hrest := ih ((none_malformed_cons hpush rest).mp h)
              rw [push_slice_cons, hpush, feed_cons, hpush]
              dsimp only
              rw [hrest]
              cases frame <;> rfl

/-- A slice is cut at its first malformed burst. -/
theorem push_slice_of_error {front : List Int8} {llr : Int8} {error : AirError}
    (hfront : self.NoneMalformed front)
    (herror : ((self.feed front).1.pushLlr llr).2 = .error error)
    (rest : List Int8) :
    self.pushSlice (front ++ llr :: rest) =
      (((self.feed front).1.pushLlr llr).1, .error error) := by
  induction front generalizing self with
  | nil =>
      rw [List.nil_append, push_slice_cons]
      change (self.pushLlr llr).2 = _ at herror
      change _ = ((self.pushLlr llr).1, _)
      cases hpush : self.pushLlr llr with
      | mk next result =>
          rw [hpush] at herror
          obtain rfl := herror
          rfl
  | cons first front ih =>
      rw [List.cons_append, push_slice_cons]
      rw [feed_cons] at herror
      rw [feed_cons]
      cases hpush : self.pushLlr first with
      | mk next result =>
          rw [hpush] at herror
          cases result with
          | error error => exact absurd hfront (not_none_malformed_cons hpush front)
          | ok frame =>
              have hrest := ih ((none_malformed_cons hpush front).mp hfront) herror
              dsimp only
              rw [hrest]

/-- After a malformed burst the receiver starts afresh. -/
theorem push_llr_error {llr : Int8} {error : AirError} (h : (self.pushLlr llr).2 = .error error) :
    (self.pushLlr llr).1 = new self.codec := by
  unfold pushLlr at h ⊢
  split at h
  · dsimp only at h ⊢
    split at h
    · rename_i hwhole
      rw [if_pos hwhole]
      rfl
    · cases h
  · dsimp only at h ⊢
    split at h
    · split at h <;> cases h
    · rename_i hheader
      rw [if_neg hheader]
      generalize (if self.header.head? = some Int8.minValue then [] else self.header) ++ [llr] =
        header at h ⊢
      split at h
      · rename_i hlength
        have hdecode : decodeRepeatedLength header = .ok (readTriplets 0 header).toNat :=
          if_neg (not_not.mpr hlength)
        rw [hdecode] at h
        rw [if_pos hlength, hdecode]
        dsimp only at h ⊢
        split at h
        · rename_i hbad
          rw [if_pos hbad]
          rfl
        · cases h
      · cases h

/-! ## Streams that survive slicing -/

/-- Slices are pushed one after the other. -/
theorem push_slices_cons (slice : List Int8) (rest : List (List Int8)) :
    self.pushSlices (slice :: rest) =
      (((self.pushSlice slice).1.pushSlices rest).1,
        sliceFrames (self.pushSlice slice).2 ++ ((self.pushSlice slice).1.pushSlices rest).2) := rfl

/-- Slices of a stream without a malformed burst return what the stream yields LLR by LLR. -/
theorem push_slices_of_none_malformed {slices : List (List Int8)}
    (h : self.NoneMalformed slices.flatten) :
    self.pushSlices slices =
      ((self.feed slices.flatten).1, framesOf (self.feed slices.flatten).2) := by
  induction slices generalizing self with
  | nil => rfl
  | cons slice rest ih =>
      rw [List.flatten_cons] at h ⊢
      obtain ⟨hslice, hrest⟩ := h.append
      rw [push_slices_cons, push_slice_of_none_malformed hslice, ih hrest, feed_append, framesOf,
        framesOf, framesOf, List.filterMap_append]
      rfl

/-- Slices of a stream that only its last LLR makes malformed return nothing. -/
theorem push_slices_of_malformed_at_end {slices : List (List Int8)} {front : List Int8}
    {last : Int8} {error : AirError} (hslices : slices.flatten = front ++ [last])
    (hfront : (self.feed front).2 = [])
    (herror : ((self.feed front).1.pushLlr last).2 = .error error) :
    self.pushSlices slices = (((self.feed front).1.pushLlr last).1, []) := by
  induction slices generalizing self front with
  | nil => simp at hslices
  | cons slice rest ih =>
      rw [List.flatten_cons, List.append_eq_append_iff] at hslices
      -- the slice ends before the last LLR, or with it
      have hbefore (tail : List Int8) (hsplit : front = slice ++ tail)
          (hrest : rest.flatten = tail ++ [last]) :
          self.pushSlices (slice :: rest) = (((self.feed front).1.pushLlr last).1, []) := by
        subst hsplit
        rw [feed_append] at hfront herror ⊢
        obtain ⟨hslice, htail⟩ := List.append_eq_nil_iff.mp hfront
        have hquiet : self.NoneMalformed slice := fun result hmem => by
          rw [hslice] at hmem
          cases hmem
        rw [push_slices_cons, push_slice_of_none_malformed hquiet, ih hrest htail herror, hslice]
        rfl
      rcases hslices with ⟨tail, hfrontSplit, hrest⟩ | ⟨tail, hslice, hlast⟩
      · exact hbefore tail hfrontSplit hrest
      · cases tail with
        | nil =>
            rw [List.append_nil] at hslice
            exact hbefore [] (by rw [hslice, List.append_nil]) hlast.symm
        | cons llr tail =>
            rw [List.cons_append, List.cons.injEq] at hlast
            obtain ⟨rfl, hnil⟩ := hlast
            obtain ⟨rfl, hrest⟩ := List.append_eq_nil_iff.mp hnil.symm
            have hquiet : self.NoneMalformed front := fun result hmem => by
              rw [hfront] at hmem
              cases hmem
            have hquietRest : ((self.feed front).1.pushLlr last).1.NoneMalformed rest.flatten := by
              rw [hrest]
              exact none_malformed_nil
            have hempty := push_slices_of_none_malformed hquietRest
            rw [hrest] at hempty
            rw [push_slices_cons, hslice, push_slice_of_error hquiet herror, hempty]
            rfl

/-- Results that are all frames, and none of them, are none. -/
theorem frames_of_eq_nil {results : List (Result (List UInt8))}
    (hframes : ∀ result ∈ results, ∃ frame, result = .ok frame) (h : framesOf results = []) :
    results = [] := by
  cases results with
  | nil => rfl
  | cons result results =>
      obtain ⟨frame, rfl⟩ := hframes result (List.mem_cons_self ..)
      cases h

/-- A fresh receiver has seen one LLR when one is pushed. -/
theorem seen_push_slice_new (codec : BurstCodec) (llr : Int8) :
    ((new codec).pushSlice [llr]).1.seen = 1 := by
  have hpush : (new codec).pushLlr llr = (searching codec (shiftSign 0 llr) 1, .ok none) :=
    @push_search codec 0 0 llr (Or.inl (by decide))
  rw [push_slice_cons, hpush]
  rfl

/-- Cutting a stream into slices makes no difference exactly when no burst of the stream is
malformed, except one that ends with the last LLR of the stream behind no complete frame. -/
theorem slicing_independent_iff (self : SoftBurstReceiver) (llrs : List Int8) :
    self.SlicingIndependent llrs ↔ self.NoneMalformed llrs ∨ self.MalformedAtEnd llrs := by
  constructor
  · intro hindependent
    by_contra hfails
    obtain ⟨hmalformed, hearly⟩ := not_or.mp hfails
    obtain ⟨front, llr, rest, error, rfl, hfront, herror⟩ := exists_first_malformed hmalformed
    have hcut := fun tail => push_slice_of_error hfront herror tail
    have hreset := push_llr_error herror
    -- an LLR behind the malformed burst is read only if it starts a slice
    have hrest : rest = [] := by
      rcases List.eq_nil_or_concat rest with rfl | ⟨tail, last, rfl⟩
      · rfl
      · rw [List.concat_eq_append] at hindependent
        have hstates := congrArg (fun result => result.1.seen)
          (hindependent [front ++ llr :: tail, [last]] [front ++ llr :: (tail ++ [last])]
            (by simp) (by simp))
        simp only [push_slices_cons, hcut, hreset] at hstates
        exact absurd ((seen_push_slice_new _ _).symm.trans hstates) Nat.one_ne_zero
    subst hrest
    -- a frame in front of the malformed burst is returned only from another slice
    have hframes := congrArg Prod.snd
      (hindependent [front, [llr]] [front ++ [llr]] (by simp) (by simp))
    have hquiet : (self.feed front).1.NoneMalformed [] := none_malformed_nil
    have hsingle := push_slice_of_error hquiet herror []
    rw [List.nil_append] at hsingle
    simp only [push_slices_cons, push_slice_of_none_malformed hfront, hcut, hsingle] at hframes
    have hnothing := frames_of_eq_nil hfront (by simpa [sliceFrames, pushSlices] using hframes)
    exact hearly ⟨front, llr, error, rfl, hnothing, herror⟩
  · rintro (hnone | ⟨front, last, error, rfl, hfront, herror⟩) slices others hslices hothers
    · rw [push_slices_of_none_malformed (hslices ▸ hnone),
        push_slices_of_none_malformed (hothers ▸ hnone), hslices, hothers]
    · rw [push_slices_of_malformed_at_end hslices hfront herror,
        push_slices_of_malformed_at_end hothers hfront herror]

/-- A burst whose header announces no LLRs. -/
def emptyBurst : List Int8 :=
  (syncWordBits ++ List.replicate lengthBitsRepeated false).map (llrOf 90)

/-- A complete frame is returned from a slice of its own and lost from a slice that a malformed
burst ends. -/
theorem slicing_loses_frame : ∃ frame,
    ((new zeroByteCodec).pushSlices [zeroByteBurst (-127), emptyBurst]).2 = [frame] ∧
      ((new zeroByteCodec).pushSlices [zeroByteBurst (-127) ++ emptyBurst]).2 = [] ∧
      ¬ (new zeroByteCodec).SlicingIndependent (zeroByteBurst (-127) ++ emptyBurst) := by
  have hcomplete : Complete (zeroByteBurst (-127)) :=
    ⟨by decide, by decide, Or.inr (by decide)⟩
  have hgood : ¬ badCodedLength (announcedLength ((zeroByteBurst (-127)).drop syncBits)) := by
    decide
  have hfeed := @feed_burst zeroByteCodec [] _ hcomplete (fun _ h => absurd h (Nat.not_lt_zero _))
    (by decide) hgood
  have haccepted : AcceptedLength (announcedLength ((zeroByteBurst (-127)).drop syncBits)) :=
    ⟨by decide, by decide, by decide, by decide⟩
  obtain ⟨frame, hframe⟩ := decode_aligned_accepted zeroByteCodec hcomplete haccepted
  rw [List.nil_append, hframe] at hfeed
  have hquiet : (new zeroByteCodec).NoneMalformed (zeroByteBurst (-127)) := fun result hmem => by
    rw [hfeed] at hmem
    exact ⟨frame, List.mem_singleton.mp hmem⟩
  have hempty : emptyBurst = emptyBurst.dropLast ++ [-90] := by decide
  have hcollect : ((new zeroByteCodec).feed emptyBurst.dropLast).2 = [] := by decide +kernel
  have herror : (((new zeroByteCodec).feed emptyBurst.dropLast).1.pushLlr (-90)).2 =
      .error .invalidLength := by
    decide +kernel
  have hcollected : (new zeroByteCodec).NoneMalformed emptyBurst.dropLast := fun result hmem => by
    rw [hcollect] at hmem
    cases hmem
  have hfront : (new zeroByteCodec).NoneMalformed (zeroByteBurst (-127) ++ emptyBurst.dropLast) :=
    fun result hmem => by
      rw [feed_append, hfeed, hcollect] at hmem
      exact ⟨frame, List.mem_singleton.mp hmem⟩
  have htwo : ((new zeroByteCodec).pushSlices [zeroByteBurst (-127), emptyBurst]).2 = [frame] := by
    rw [push_slices_cons, push_slice_of_none_malformed hquiet, hfeed, push_slices_cons, hempty,
      push_slice_of_error hcollected herror]
    rfl
  have hone : ((new zeroByteCodec).pushSlices [zeroByteBurst (-127) ++ emptyBurst]).2 = [] := by
    have hlast : (((new zeroByteCodec).feed (zeroByteBurst (-127) ++
        emptyBurst.dropLast)).1.pushLlr (-90)).2 = .error .invalidLength := by
      simp only [feed_append, hfeed, herror]
    rw [push_slices_cons, hempty, ← List.append_assoc, push_slice_of_error hfront hlast]
    rfl
  refine ⟨frame, htwo, hone, fun hindependent => ?_⟩
  have hsame := congrArg Prod.snd (hindependent [zeroByteBurst (-127), emptyBurst]
    [zeroByteBurst (-127) ++ emptyBurst] (by simp) (by simp))
  rw [htwo, hone] at hsame
  cases hsame

end SoftBurstReceiver

end LatentMesh.AirRadio
