import LatentMesh.AirRadio.Burst

/-!
# The deframer LLR by LLR

What a `SoftBurstReceiver` yields when LLRs are pushed one at a time, in its three phases: the
search for the sync word (`feed_search`), the length header (`feed_header`) and the coded section
(`feed_payload`). See `feed_sentinel` for the reading of everything behind the sync word.
-/

namespace LatentMesh.AirRadio

open LatentMesh.AirCore LatentMesh.Lib

namespace SoftBurstReceiver

/-- What one call of `push_llr` yields: a frame, an error or nothing. -/
def yields : Result (Option (List UInt8)) → List (Result (List UInt8))
  | .error error => [.error error]
  | .ok none => []
  | .ok (some frame) => [.ok frame]

/-- The receiver after a stream that is pushed LLR by LLR, and all that it yielded. -/
def feed (self : SoftBurstReceiver) : List Int8 → SoftBurstReceiver × List (Result (List UInt8))
  | [] => (self, [])
  | llr :: rest =>
      let (next, result) := self.pushLlr llr
      let (last, results) := next.feed rest
      (last, yields result ++ results)

variable {self : SoftBurstReceiver}

/-- Values are fed one after the other. -/
theorem feed_cons (llr : Int8) (rest : List Int8) :
    self.feed (llr :: rest) = (((self.pushLlr llr).1.feed rest).1,
      yields (self.pushLlr llr).2 ++ ((self.pushLlr llr).1.feed rest).2) := rfl

/-- Joined values are fed part by part. -/
theorem feed_append (first second : List Int8) :
    self.feed (first ++ second) = (((self.feed first).1.feed second).1,
      (self.feed first).2 ++ ((self.feed first).1.feed second).2) := by
  induction first generalizing self with
  | nil => rfl
  | cons llr first ih => rw [List.cons_append, feed_cons, feed_cons, ih, List.append_assoc]

/-- A stream that yields nothing only moves the receiver. -/
theorem feed_append_of_quiet {first : List Int8} {next : SoftBurstReceiver}
    (h : self.feed first = (next, [])) (second : List Int8) :
    self.feed (first ++ second) = next.feed second := by
  rw [feed_append, h]
  rfl

/-! ## The search for the sync word -/

variable (codec : BurstCodec)

/-- A receiver that has shifted in LLRs without finding the sync word. -/
def searching (shift : UInt32) (seen : Nat) : SoftBurstReceiver :=
  ⟨codec, shift, seen, [], [], none⟩

/-- A receiver behind a sync word. -/
def collecting (seen : Nat) (header : List Int8) : SoftBurstReceiver :=
  ⟨codec, phySync, seen, header, [], none⟩

/-- The register that shifts in the sign of an LLR. -/
def shiftSign (shift : UInt32) (llr : Int8) : UInt32 :=
  (shift <<< 1) ||| (decide (0 < llr)).toUInt32

/-- The register behind a stream. -/
def shiftOf (llrs : List Int8) : UInt32 := llrs.foldl shiftSign 0

/-- The saturating counter of values. -/
theorem min_seen (count : Nat) :
    min (min count usizeMax + 1) usizeMax = min (count + 1) usizeMax := by
  omega

/-- The saturating counter tells when the sync word may be complete. -/
theorem min_seen_lt_iff (count : Nat) : min count usizeMax < syncBits ↔ count < syncBits := by
  have hmax : syncBits ≤ usizeMax := by decide
  omega

/-- An LLR that does not complete the sync word. -/
theorem push_search {shift : UInt32} {count : Nat} {llr : Int8}
    (h : count + 1 < syncBits ∨ shiftSign shift llr ≠ phySync) :
    (searching codec shift (min count usizeMax)).pushLlr llr =
      (searching codec (shiftSign shift llr) (min (count + 1) usizeMax), .ok none) := by
  rw [← min_seen_lt_iff, ← min_seen] at h
  rw [← min_seen]
  exact if_pos h

/-- The LLR that completes the sync word. -/
theorem push_found {shift : UInt32} {count : Nat} {llr : Int8} (hcount : syncBits ≤ count + 1)
    (hshift : shiftSign shift llr = phySync) :
    (searching codec shift (min count usizeMax)).pushLlr llr =
      (collecting codec (min (count + 1) usizeMax) [Int8.minValue], .ok none) := by
  have hfound : ¬ (min (min count usizeMax + 1) usizeMax < syncBits ∨
      shiftSign shift llr ≠ phySync) := by
    rw [min_seen, min_seen_lt_iff]
    exact not_or.mpr ⟨Nat.not_lt.mpr hcount, not_not.mpr hshift⟩
  rw [collecting, ← hshift, ← min_seen]
  exact if_neg hfound

/-- The shift register after one more value. -/
theorem shift_of_append (llrs : List Int8) (llr : Int8) :
    shiftOf (llrs ++ [llr]) = shiftSign (shiftOf llrs) llr :=
  List.foldl_append

/-- A stream without the sync word is searched to its end. -/
theorem feed_search {llrs : List Int8}
    (h : ∀ count ≤ llrs.length, count < syncBits ∨ shiftOf (llrs.take count) ≠ phySync) :
    (new codec).feed llrs = (searching codec (shiftOf llrs) (min llrs.length usizeMax), []) := by
  induction llrs using List.reverseRecOn with
  | nil => rfl
  | append_singleton llrs llr ih =>
      have hlength : (llrs ++ [llr]).length = llrs.length + 1 := by simp
      have hfront := ih fun count hcount => by
        have hfrontTake := h count (by omega)
        rwa [List.take_append_of_le_length hcount] at hfrontTake
      have hlast := h (llrs.length + 1) (by omega)
      rw [List.take_of_length_le (by omega), shift_of_append] at hlast
      rw [feed_append_of_quiet hfront, feed_cons, push_search codec hlast, hlength, shift_of_append]
      rfl

/-- The search ends behind the first sync word. -/
theorem feed_sync {llrs : List Int8} {llr : Int8}
    (h : ∀ count ≤ llrs.length, count < syncBits ∨ shiftOf (llrs.take count) ≠ phySync)
    (hlength : syncBits ≤ llrs.length + 1) (hsync : shiftOf (llrs ++ [llr]) = phySync) :
    (new codec).feed (llrs ++ [llr]) =
      (collecting codec (min (llrs.length + 1) usizeMax) [Int8.minValue], []) := by
  rw [shift_of_append] at hsync
  rw [feed_append_of_quiet (feed_search codec h), feed_cons, push_found codec hlength hsync]
  rfl

/-! ## The length header -/

/-- A receiver that has read the length header. -/
def receiving (seen : Nat) (payload : List Int8) (expected : Nat) : SoftBurstReceiver :=
  ⟨codec, phySync, seen, [], payload, some expected⟩

/-- As long as the header starts with the sentinel value, every further LLR of that value is taken
for the sentinel again. -/
theorem push_sentinel (seen : Nat) :
    (collecting codec seen [Int8.minValue]).pushLlr Int8.minValue =
      (collecting codec seen [Int8.minValue], .ok none) := rfl

/-- While a burst is collected, sentinels at its start are passed over. -/
theorem feed_sentinels (seen : Nat) (llrs : List Int8) :
    (collecting codec seen [Int8.minValue]).feed llrs =
      (collecting codec seen [Int8.minValue]).feed (llrs.dropWhile (· == Int8.minValue)) := by
  induction llrs with
  | nil => rfl
  | cons llr llrs ih =>
      by_cases hsentinel : llr = Int8.minValue
      · subst hsentinel
        rw [feed_cons, push_sentinel, List.dropWhile_cons_of_pos (by decide), ih]
        rfl
      · rw [List.dropWhile_cons_of_neg (by simpa using hsentinel)]

/-- The header behind the sentinel or behind its first LLRs. -/
def collected (header : List Int8) : List Int8 :=
  if header.head? = some Int8.minValue then [] else header

/-- An LLR that does not complete the header. -/
theorem push_header (seen : Nat) {header : List Int8} (hne : header ≠ []) {llr : Int8}
    (h : (collected header ++ [llr]).length ≠ lengthBitsRepeated) :
    (collecting codec seen header).pushLlr llr =
      (collecting codec seen (collected header ++ [llr]), .ok none) := by
  dsimp only [pushLlr, collecting]
  rw [if_neg (by simpa using hne)]
  exact if_neg h

/-- The first LLR of a header replaces the sentinel value. -/
theorem push_header_sentinel (seen : Nat) (llr : Int8) :
    (collecting codec seen [Int8.minValue]).pushLlr llr =
      (collecting codec seen [llr], .ok none) :=
  push_header codec seen (List.cons_ne_nil _ _) (by simp [collected, lengthBitsRepeated])

/-- The LLR that completes the header. -/
theorem push_header_last (seen : Nat) {header : List Int8} (hne : header ≠ []) {llr : Int8}
    (h : (collected header ++ [llr]).length = lengthBitsRepeated) :
    (collecting codec seen header).pushLlr llr =
      if badCodedLength (readTriplets 0 (collected header ++ [llr])).toNat then
        (new codec, .error .invalidLength)
      else
        (receiving codec seen [] (readTriplets 0 (collected header ++ [llr])).toNat, .ok none) := by
  have hdecode : decodeRepeatedLength (collected header ++ [llr]) =
      .ok (readTriplets 0 (collected header ++ [llr])).toNat := if_neg (not_not.mpr h)
  dsimp only [pushLlr, collecting]
  rw [if_neg (by simpa using hne), ← collected, if_pos h, hdecode]
  rfl

/-- Header LLRs that do not complete the header are collected. -/
theorem feed_collect (seen : Nat) {front : List Int8} (hne : front ≠ [])
    (hhead : front.head? ≠ some Int8.minValue) (llrs : List Int8)
    (h : front.length + llrs.length < lengthBitsRepeated) :
    (collecting codec seen front).feed llrs = (collecting codec seen (front ++ llrs), []) := by
  induction llrs generalizing front with
  | nil =>
      rw [List.append_nil]
      rfl
  | cons llr llrs ih =>
      rw [List.length_cons] at h
      have hcollected : collected front = front := if_neg hhead
      have hshort : (collected front ++ [llr]).length ≠ lengthBitsRepeated := by
        rw [hcollected, List.length_append, List.length_singleton]
        omega
      have hpush := push_header codec seen hne hshort
      have hhead' : (front ++ [llr]).head? ≠ some Int8.minValue := by
        cases front with
        | nil => exact absurd rfl hne
        | cons first front => exact hhead
      rw [feed_cons, hpush, hcollected, ih (by simp) hhead' (by
        rw [List.length_append, List.length_singleton]
        omega), List.append_assoc]
      rfl

/-- A header that does not start with the sentinel value is read whole. -/
theorem feed_header (seen : Nat) {header : List Int8} (hlength : header.length = lengthBitsRepeated)
    (hhead : header.head? ≠ some Int8.minValue) :
    (collecting codec seen [Int8.minValue]).feed header =
      if badCodedLength (readTriplets 0 header).toNat then (new codec, [.error .invalidLength])
      else (receiving codec seen [] (readTriplets 0 header).toNat, []) := by
  match header, hlength with
  | first :: rest, hlength =>
      rcases List.eq_nil_or_concat rest with rfl | ⟨middle, last, rfl⟩
      · cases hlength
      · rw [List.concat_eq_append, List.length_cons, List.length_append,
          List.length_singleton] at hlength
        have hbits : lengthBitsRepeated = 48 := rfl
        have hfirst := push_header_sentinel codec seen first
        have hmiddle := feed_collect codec seen (List.cons_ne_nil first []) hhead middle
          (by rw [List.length_singleton]; omega)
        have hcollected : collected (first :: middle) = first :: middle := if_neg hhead
        have hcount : (collected (first :: middle) ++ [last]).length = lengthBitsRepeated := by
          rw [hcollected, List.length_append, List.length_cons, List.length_singleton]
          omega
        have hlast := push_header_last codec seen (List.cons_ne_nil first middle) hcount
        rw [hcollected] at hlast
        rw [List.concat_eq_append, feed_cons, hfirst]
        change ((feed (collecting codec seen [first]) (middle ++ [last])).1,
          [] ++ (feed (collecting codec seen [first]) (middle ++ [last])).2) = _
        rw [feed_append_of_quiet hmiddle, feed_cons, List.singleton_append, hlast,
          List.cons_append]
        split <;> rfl

/-! ## The coded section -/

/-- Coded LLRs that do not complete the section are collected. -/
theorem feed_payload (seen : Nat) (payload : List Int8) (expected : Nat) (llrs : List Int8)
    (h : payload.length + llrs.length < expected) :
    (receiving codec seen payload expected).feed llrs =
      (receiving codec seen (payload ++ llrs) expected, []) := by
  induction llrs generalizing payload with
  | nil =>
      rw [List.append_nil]
      rfl
  | cons llr llrs ih =>
      rw [List.length_cons] at h
      have hlength : (payload ++ [llr]).length = payload.length + 1 := by simp
      have hpush : (receiving codec seen payload expected).pushLlr llr =
          (receiving codec seen (payload ++ [llr]) expected, .ok none) :=
        if_neg (by change (payload ++ [llr]).length ≠ expected; omega)
      rw [feed_cons, hpush, ih _ (by omega), List.append_assoc]
      rfl

/-- The LLR that completes the section. -/
theorem feed_section (seen : Nat) {coded : List Int8} (h : 0 < coded.length) :
    (receiving codec seen [] coded.length).feed coded = (new codec, [codec.decodeCoded coded]) := by
  rcases List.eq_nil_or_concat coded with rfl | ⟨front, last, rfl⟩
  · cases h
  · rw [List.concat_eq_append] at h ⊢
    have hlength : (front ++ [last]).length = front.length + 1 := by simp
    have hfront := feed_payload codec seen [] (front ++ [last]).length front
      (by rw [List.length_nil]; omega)
    have hpush : (receiving codec seen front (front ++ [last]).length).pushLlr last =
        (new codec, (codec.decodeCoded (front ++ [last])).map some) := if_pos rfl
    rw [feed_append_of_quiet hfront, List.nil_append, feed_cons, hpush]
    cases codec.decodeCoded (front ++ [last]) <;> rfl

/-! ## Behind the sync word -/

/-- The length that a header encodes. -/
def announcedLength (rest : List Int8) : Nat :=
  (readTriplets 0 (rest.take lengthBitsRepeated)).toNat

/-- What the bits behind a sync word hold, read whole: nothing yet, a malformed header, or a coded
section. -/
def readBurst (rest : List Int8) : Option (Result (List UInt8)) :=
  if rest.length < lengthBitsRepeated then none
  else if badCodedLength (announcedLength rest) then some (.error .invalidLength)
  else if rest.length < lengthBitsRepeated + announcedLength rest then none
  else some (codec.decodeCoded ((rest.drop lengthBitsRepeated).take (announcedLength rest)))

variable {codec}

/-- A header that is cut off yields nothing. -/
theorem feed_short_header (seen : Nat) {rest : List Int8} (h : rest.length < lengthBitsRepeated)
    (hhead : rest.head? ≠ some Int8.minValue) :
    ((collecting codec seen [Int8.minValue]).feed rest).2 = [] := by
  cases rest with
  | nil => rfl
  | cons first rest =>
      have hbits : lengthBitsRepeated = 48 := rfl
      rw [List.length_cons] at h
      have hfirst := push_header_sentinel codec seen first
      have hrest := feed_collect codec seen (List.cons_ne_nil first []) hhead rest
        (by rw [List.length_singleton]; omega)
      rw [feed_cons, hfirst]
      exact congrArg Prod.snd hrest

/-- A header, split off from what follows it, is read whole. -/
theorem feed_header_append (seen : Nat) {header : List Int8}
    (hlength : header.length = lengthBitsRepeated) (hhead : header.head? ≠ some Int8.minValue)
    (hgood : ¬ badCodedLength (readTriplets 0 header).toNat) (tail : List Int8) :
    (collecting codec seen [Int8.minValue]).feed (header ++ tail) =
      (receiving codec seen [] (readTriplets 0 header).toNat).feed tail := by
  have hheader := feed_header codec seen hlength hhead
  rw [if_neg hgood] at hheader
  exact feed_append_of_quiet hheader tail

/-- Behind the sync word the deframer reads what is left of the stream when the leading sentinel
values are dropped. -/
theorem head_feed_sentinel (seen : Nat) (llrs : List Int8) :
    ((collecting codec seen [Int8.minValue]).feed llrs).2.head? =
      readBurst codec (llrs.dropWhile (· == Int8.minValue)) := by
  rw [feed_sentinels]
  have hhead : (llrs.dropWhile (· == Int8.minValue)).head? ≠ some Int8.minValue := fun hsome => by
    have hnot := List.head?_dropWhile_not (· == Int8.minValue) llrs
    rw [hsome] at hnot
    simp at hnot
  generalize llrs.dropWhile (· == Int8.minValue) = rest at hhead
  by_cases hshort : rest.length < lengthBitsRepeated
  · rw [feed_short_header seen hshort hhead, readBurst, if_pos hshort]
    rfl
  · have hlength : (rest.take lengthBitsRepeated).length = lengthBitsRepeated := by
      rw [List.length_take]
      omega
    have hhead' : (rest.take lengthBitsRepeated).head? ≠ some Int8.minValue := by
      cases rest with
      | nil => simp
      | cons first rest => exact hhead
    rw [readBurst, if_neg hshort, announcedLength]
    conv_lhs => rw [← List.take_append_drop lengthBitsRepeated rest]
    by_cases hbad : badCodedLength (readTriplets 0 (rest.take lengthBitsRepeated)).toNat
    · rw [if_pos hbad, feed_append, feed_header codec seen hlength hhead', if_pos hbad]
      rfl
    · rw [if_neg hbad, feed_header_append seen hlength hhead' hbad]
      generalize hannounced : (readTriplets 0 (rest.take lengthBitsRepeated)).toNat = announced
        at hbad
      by_cases hcut : rest.length < lengthBitsRepeated + announced
      · have hpayload := feed_payload codec seen [] announced (rest.drop lengthBitsRepeated)
          (by rw [List.length_nil, List.length_drop]; omega)
        rw [if_pos hcut, hpayload]
        rfl
      · have hcoded : ((rest.drop lengthBitsRepeated).take announced).length = announced := by
          rw [List.length_take, List.length_drop]
          omega
        have hpos : 0 < announced := by
          rw [badCodedLength] at hbad
          omega
        have hsection := feed_section codec seen (hcoded.symm ▸ hpos)
        rw [hcoded] at hsection
        rw [if_neg hcut]
        conv_lhs => rw [← List.take_append_drop announced (rest.drop lengthBitsRepeated)]
        rw [feed_append, hsection]
        rfl

/-- A complete burst yields exactly its coded section. -/
theorem feed_whole (seen : Nat) {header coded : List Int8}
    (hlength : header.length = lengthBitsRepeated) (hhead : header.head? ≠ some Int8.minValue)
    (hgood : ¬ badCodedLength coded.length)
    (hannounced : (readTriplets 0 header).toNat = coded.length) :
    (collecting codec seen [Int8.minValue]).feed (header ++ coded) =
      (new codec, [codec.decodeCoded coded]) := by
  have hpos : 0 < coded.length := by
    rw [badCodedLength] at hgood
    omega
  rw [feed_header_append seen hlength hhead (by rwa [hannounced]), hannounced]
  exact feed_section codec seen hpos

end SoftBurstReceiver

end LatentMesh.AirRadio
