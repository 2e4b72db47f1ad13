import LatentMesh.AirC.FrameAgreement
import LatentMesh.Lib.CrcDetection

/-!
# Corrupted frames

What the check sequence of a frame is good for. Two different byte strings of one length that the
decoders accept differ in an even number of bits, at least four (`accepted_apart`), and they are
neither confined to three consecutive bytes, nor to four under the check sequence, nor to the check
sequence itself (`accepted_not_within`, `accepted_not_covered`, `accepted_not_check`). So a frame
that was hit by a `Corruption` is refused by the C decoder and by the Rust decoder
(`corrupted_refused`).
-/

namespace LatentMesh.AirC

open LatentMesh.Lib LatentMesh.AirCore

/-! ## Corruptions -/

/-- The number of bits in which two byte strings of one length differ. -/
def bitErrors (sent received : List UInt8) : Nat :=
  ((sent.zipWith (· ^^^ ·) received).map fun byte => weight (byteBits byte)).sum

/-- Two byte strings agree outside of `size` bytes from `start` on. -/
def AgreeOutside (start size : Nat) (sent received : List UInt8) : Prop :=
  ∀ i, i < start ∨ start + size ≤ i → received[i]? = sent[i]?

/-- What a frame may suffer on the link without any decoder accepting the result: up to three
flipped bits, an odd number of them, damage within three consecutive bytes, within four consecutive
bytes that the check sequence covers, or within the check sequence itself. -/
inductive Corruption (sent received : List UInt8) : Prop where
  | few (hlength : received.length = sent.length) (hne : received ≠ sent)
      (hbits : bitErrors sent received ≤ 3)
  | odd (hlength : received.length = sent.length) (hbits : bitErrors sent received % 2 = 1)
  | short (hlength : received.length = sent.length) (hne : received ≠ sent) (start : Nat)
      (hwithin : AgreeOutside start 3 sent received)
  | covered (hlength : received.length = sent.length) (hne : received ≠ sent) (start : Nat)
      (hwithin : AgreeOutside start 4 sent received)
      (hcovered : start + 4 + lmAirFrameCrcBytes ≤ sent.length)
  | check (hlength : received.length = sent.length) (hne : received ≠ sent) (start : Nat)
      (hwithin : AgreeOutside start lmAirFrameCrcBytes sent received)
      (hcheck : start + lmAirFrameCrcBytes = sent.length)

/-! ## The register of CRC-32C -/

/-- The polynomial has its top bit, so that no step loses anything. -/
theorem castagnoli_msb : castagnoli.toBitVec.msb = true := by decide

/-- The polynomial has odd weight, so that the register keeps the parity. -/
theorem castagnoli_parity : parity castagnoli.toBitVec = true := by decide

/-- No two bits of a frame are a period of the register apart. -/
theorem castagnoli_no_return : NoReturn castagnoli.toBitVec 2048 :=
  (avoids_iff _ _ _).mp (by decide +kernel)

/-- The loop of `crc32c` feeds the bits of the bytes to the register. -/
theorem crc32c_fold_eq_feed (crc : UInt32) (bytes : List UInt8) :
    (bytes.foldl crc32cByte crc).toBitVec =
      crcFeed castagnoli.toBitVec crc.toBitVec (streamBits bytes) := by
  induction bytes generalizing crc with
  | nil => rfl
  | cons byte bytes ih =>
      rw [List.foldl_cons, ih, crc32c_byte_eq_steps, stream_bits_cons, crc_feed_append,
        crc_feed_byte _ _ (by decide)]
      rfl

/-- The checksums of two byte strings of one length differ by what their difference feeds to the
zero register. -/
theorem crc32c_xor {left right : List UInt8} (h : left.length = right.length) :
    (crc32c left ^^^ crc32c right).toBitVec =
      crcFeed castagnoli.toBitVec 0 (streamBits (left.zipWith (· ^^^ ·) right)) := by
  have hlengths : (streamBits left).length = (streamBits right).length := by simp [h]
  have hfeed := crc_feed_xor castagnoli.toBitVec (~~~ 0 : UInt32).toBitVec (~~~ 0 : UInt32).toBitVec
    hlengths
  rw [BitVec.xor_self] at hfeed
  have hnot (x y : UInt32) : (~~~ x) ^^^ (~~~ y) = x ^^^ y := by
    apply UInt32.toBitVec_inj.mp
    apply BitVec.eq_of_getLsbD_eq
    intro i hi
    simp [hi]
  rw [stream_bits_xor h, crc32c, crc32c, hnot, UInt32.toBitVec_xor, crc32c_fold_eq_feed,
    crc32c_fold_eq_feed]
  exact hfeed.symm

/-! ## Accepted frames -/

/-- The byte strings that both decoders may accept: a check sequence behind the bytes it covers. -/
structure Sealed (wire covered : List UInt8) : Prop where
  wire_eq : wire = covered ++ putU32Be (crc32c covered)
  length_le : wire.length ≤ lmAirMaxWireBytes

/-- A wire that is accepted ends in the check of the bytes before it. -/
theorem sealed_of_decode {wire : List UInt8} {frame : SparseRadioFrame}
    (h : SparseRadioFrame.decode wire = .ok frame) : Sealed wire frame.checkedBytes := by
  obtain ⟨hvalid, rfl⟩ := SparseRadioFrame.wire_of_decode h
  have hpayload : frame.payload.length ≤ 240 := hvalid.payload
  refine ⟨by rw [put_u32_be_eq]; rfl, ?_⟩
  rw [SparseRadioFrame.wire_length, SparseRadioFrame.encodedLen]
  simp only [frameMinBytes, frameHeaderBytes, lmAirMaxWireBytes]
  omega

/-- The bytes of a sum of two words are the sums of their bytes. -/
theorem put_u32_be_xor (x y : UInt32) :
    (putU32Be x).zipWith (· ^^^ ·) (putU32Be y) = putU32Be (x ^^^ y) := by
  have hshift (k : UInt32) : (x ^^^ y) >>> k = (x >>> k) ^^^ (y >>> k) :=
    UInt32.toBitVec_inj.mp (BitVec.ushiftRight_xor_distrib ..)
  simp [putU32Be, hshift]

/-- The check sequence, last byte first, holds the bits of the register from the low end up. -/
theorem stream_bits_check (value : UInt32) :
    streamBits (putU32Be value).reverse = (List.range 32).map value.toBitVec.getLsbD := by
  simp [putU32Be, streamBits, byteBits, List.range_succ, UInt32.toBitVec_shiftRight]

/-- The bits of a check sequence load the check into the register. -/
theorem load_bits_check (value : UInt32) :
    loadBits 32 (streamBits (putU32Be value).reverse) = value.toBitVec := by
  apply BitVec.eq_of_getLsbD_eq
  intro i hi
  rw [stream_bits_check, load_bits_get]
  simp [hi]

/-- The check sequence adds four bytes. -/
theorem Sealed.length_eq {wire covered : List UInt8} (h : Sealed wire covered) :
    wire.length = covered.length + 4 := by
  rw [h.wire_eq, List.length_append]
  rfl

/-- Wires of one length cover as many bytes. -/
theorem Sealed.covered_length {left right coveredLeft coveredRight : List UInt8}
    (hleft : Sealed left coveredLeft) (hright : Sealed right coveredRight)
    (hlength : right.length = left.length) : coveredLeft.length = coveredRight.length := by
  have hsize := hleft.length_eq
  have hsize' := hright.length_eq
  omega

/-- A wire has no errors against itself. -/
theorem bit_errors_self (bytes : List UInt8) : bitErrors bytes bytes = 0 := by
  have hzero : weight (byteBits 0) = 0 := by decide
  simp [bitErrors, List.zipWith_self, hzero]

/-- Two byte strings without a difference are the same. -/
theorem eq_of_xor_zeros {left right : List UInt8} (h : left.length = right.length)
    (hzeros : left.zipWith (· ^^^ ·) right =
      List.replicate (left.zipWith (· ^^^ ·) right).length 0) : left = right := by
  refine List.ext_getElem h fun i hi hi' => ?_
  have hmem : left[i] ^^^ right[i] ∈ left.zipWith (· ^^^ ·) right := by
    refine List.mem_of_getElem (i := i) (h := by rw [List.length_zipWith]; omega) ?_
    exact List.getElem_zipWith
  rw [hzeros] at hmem
  exact UInt8.xor_eq_zero_iff.mp (List.eq_of_mem_replicate hmem)

section Pair

variable {left right coveredLeft coveredRight : List UInt8}

/-- The error pattern of two accepted byte strings, as the register sees it. -/
def errorBits (coveredLeft coveredRight : List UInt8) : List Bool :=
  streamBits (coveredLeft.zipWith (· ^^^ ·) coveredRight) ++
    streamBits (putU32Be (crc32c coveredLeft ^^^ crc32c coveredRight)).reverse

/-- The pattern between two accepted byte strings goes unseen. -/
theorem error_bits_unseen (h : coveredLeft.length = coveredRight.length) :
    crcFeed castagnoli.toBitVec 0 (errorBits coveredLeft coveredRight) = 0#32 := by
  have hlength : (streamBits (putU32Be (crc32c coveredLeft ^^^ crc32c coveredRight)).reverse).length
      ≤ 32 := by simp [putU32Be]
  rw [errorBits, crc_feed_append, ← crc32c_xor h, crc_feed_load _ _ hlength, load_bits_check,
    BitVec.xor_self, crc_steps_zero]

/-- The error pattern has a bit for every error. -/
theorem error_bits_weight (hleft : Sealed left coveredLeft) (hright : Sealed right coveredRight)
    (h : coveredLeft.length = coveredRight.length) :
    weight (errorBits coveredLeft coveredRight) = bitErrors left right := by
  rw [errorBits, weight_append, weight_stream_bits, weight_stream_bits, bitErrors, hleft.wire_eq,
    hright.wire_eq, List.zipWith_append h, put_u32_be_xor, List.map_append, List.sum_append,
    List.map_reverse, List.sum_reverse]

/-- An error pattern that is blank outside of a window, as the window in its padding. -/
theorem eq_padded {pattern : List UInt8} {start size : Nat} (hsize : start + size ≤ pattern.length)
    (h : ∀ i, i < start ∨ start + size ≤ i → i < pattern.length → pattern[i]? = some 0) :
    pattern = List.replicate start 0 ++ (pattern.drop start).take size ++
      List.replicate (pattern.length - (start + size)) 0 := by
  refine List.ext_getElem? fun i => ?_
  by_cases hbefore : i < start
  · rw [List.append_assoc, List.getElem?_append_left (by simpa using hbefore),
      List.getElem?_replicate, if_pos hbefore, h i (Or.inl hbefore) (by omega)]
  by_cases hwithin : i < start + size
  · rw [List.append_assoc, List.getElem?_append_right (by simpa using hbefore),
      List.length_replicate, List.getElem?_append_left (by simp; omega), List.getElem?_take,
      if_pos (by omega), List.getElem?_drop]
    congr 1
    omega
  · have hfront : (List.replicate start (0 : UInt8) ++ (pattern.drop start).take size).length =
        start + size := by
      simp
      omega
    rw [List.getElem?_append_right (by omega), hfront, List.getElem?_replicate]
    by_cases hlast : i < pattern.length
    · rw [h i (Or.inr (by omega)) hlast, if_pos (by omega)]
    · rw [List.getElem?_eq_none (by omega), if_neg (by omega)]

/-- Equal bytes have a zero sum. -/
theorem xor_get {i : Nat} (hi : i < left.length) (hsame : right[i]? = left[i]?) :
    (left.zipWith (· ^^^ ·) right)[i]? = some 0 := by
  rw [List.getElem?_zipWith, hsame, List.getElem?_eq_getElem hi]
  simp

/-- A burst under the check sequence changes the checksum. -/
theorem covered_burst_seen {size start : Nat} (h : coveredLeft.length = coveredRight.length)
    (hsize : size ≤ 4) (hwindow : start + size ≤ coveredLeft.length)
    (hwithin : ∀ i, i < start ∨ start + size ≤ i → coveredRight[i]? = coveredLeft[i]?)
    (hcheck : crc32c coveredLeft = crc32c coveredRight) : coveredLeft = coveredRight := by
  have hlength : (coveredLeft.zipWith (· ^^^ ·) coveredRight).length = coveredLeft.length := by
    rw [List.length_zipWith]
    omega
  have hfits : start + size ≤ (coveredLeft.zipWith (· ^^^ ·) coveredRight).length := by omega
  have hpadded := eq_padded hfits (fun i hi _ => xor_get (by omega) (hwithin i hi))
  have hfeed := crc32c_xor h
  rw [hcheck, UInt32.xor_self, hpadded, stream_bits_append, stream_bits_append, stream_bits_zeros,
    stream_bits_zeros] at hfeed
  have hblank := crc_burst_seen castagnoli_msb (by simp; omega)
    ((crc_feed_padded castagnoli_msb _ _ _).mp hfeed.symm)
  refine eq_of_xor_zeros h ?_
  rw [hlength]
  refine hpadded.trans ?_
  rw [eq_zeros_of_stream_bits hblank, List.replicate_append_replicate,
    List.replicate_append_replicate]
  congr 1
  simp
  omega

/-- No change of the last covered byte is made up for by the first two bytes of the check
sequence. -/
theorem last_byte_seen : ∀ byte : Fin 256, ((crcStep castagnoli.toBitVec)^[8]
    ((BitVec.ofFin (w := 8) byte).setWidth 32)).setWidth 16 = 0#16 → byte = 0 := by
  decide +kernel

/-- No change of the last two covered bytes is made up for by the first byte of the check
sequence. -/
theorem last_bytes_seen : ∀ byte : Fin 256, ((crcBack castagnoli.toBitVec)^[16]
    ((BitVec.ofFin (w := 8) byte).setWidth 32 <<< 24)) >>> 16 = 0#32 → byte = 0 := by
  decide +kernel

/-- The bytes of a word tell the word. -/
theorem put_u32_be_injective {x y : UInt32} (h : putU32Be x = putU32Be y) : x = y := by
  apply UInt32.toBitVec_inj.mp
  rw [← load_bits_check, ← load_bits_check, h]

/-- The difference of byte strings that agree up to a place is blank up to there. -/
theorem eq_padded_end {start : Nat} {pattern : List UInt8}
    (hpattern : pattern = coveredLeft.zipWith (· ^^^ ·) coveredRight)
    (h : coveredLeft.length = coveredRight.length) (hstart : start ≤ coveredLeft.length)
    (hbefore : ∀ i, i < start → coveredRight[i]? = coveredLeft[i]?) :
    pattern = List.replicate start 0 ++ pattern.drop start := by
  have hlength : pattern.length = coveredLeft.length := by
    rw [hpattern, List.length_zipWith]
    omega
  have hfits : start + (coveredLeft.length - start) ≤ pattern.length := by omega
  have hwindow := eq_padded hfits
    (fun i hi hlt => hpattern ▸ xor_get (by omega) (hbefore i (by omega)))
  rwa [List.take_of_length_le (by rw [List.length_drop]; omega),
    show pattern.length - (start + (coveredLeft.length - start)) = 0 by omega,
    List.replicate_zero, List.append_nil] at hwindow

/-- The checksums of byte strings that differ only at their end differ by the load of the end. -/
theorem crc32c_xor_end {start : Nat} {pattern : List UInt8}
    (hpattern : pattern = coveredLeft.zipWith (· ^^^ ·) coveredRight)
    (h : coveredLeft.length = coveredRight.length) (hend : coveredLeft.length ≤ start + 4)
    (hstart : start ≤ coveredLeft.length)
    (hbefore : ∀ i, i < start → coveredRight[i]? = coveredLeft[i]?) :
    (crc32c coveredLeft ^^^ crc32c coveredRight).toBitVec =
      (crcStep castagnoli.toBitVec)^[8 * (coveredLeft.length - start)]
        (loadBits 32 (streamBits (pattern.drop start))) := by
  have hlength : pattern.length = coveredLeft.length := by
    rw [hpattern, List.length_zipWith]
    omega
  have hpadded := eq_padded_end hpattern h hstart hbefore
  have hbits : (streamBits (pattern.drop start)).length = 8 * (coveredLeft.length - start) := by
    rw [stream_bits_length, List.length_drop, hlength]
  have hzeros : crcFeed castagnoli.toBitVec 0 (List.replicate (8 * start) false) = 0#32 :=
    (crc_feed_zeros _ _ _).trans (crc_steps_zero _ _)
  calc (crc32c coveredLeft ^^^ crc32c coveredRight).toBitVec
      = crcFeed castagnoli.toBitVec 0
          (streamBits (List.replicate start 0 ++ pattern.drop start)) := by
        rw [← hpadded, hpattern, crc32c_xor h]
    _ = crcFeed castagnoli.toBitVec 0#32 (streamBits (pattern.drop start)) := by
        rw [stream_bits_append, stream_bits_zeros, crc_feed_append, hzeros]
    _ = _ := by rw [crc_feed_load _ _ (by omega), BitVec.zero_xor, hbits]

/-- The two low bytes of a check value are its last two bytes. -/
theorem check_low_bytes {check : UInt32} (hsecond : (putU32Be check)[2]? = some 0)
    (hthird : (putU32Be check)[3]? = some 0) : check.toBitVec.setWidth 16 = 0#16 := by
  have hlast : check.toUInt8 = 0 := by simpa [putU32Be] using hthird
  have hnext : (check >>> 8).toUInt8 = 0 := by simpa [putU32Be] using hsecond
  apply BitVec.eq_of_getLsbD_eq
  intro i hi
  rw [BitVec.getLsbD_setWidth, decide_eq_true hi, Bool.true_and, BitVec.getLsbD_zero]
  by_cases hlow : i < 8
  · have hbit := congrArg (fun byte : UInt8 => byte.toBitVec.getLsbD i) hlast
    simpa [hlow] using hbit
  · have hbit := congrArg (fun byte : UInt8 => byte.toBitVec.getLsbD (i - 8)) hnext
    simpa [UInt32.toBitVec_shiftRight, show i - 8 < 8 by omega, show 8 + (i - 8) = i by omega]
      using hbit

/-- A check value whose last three bytes are blank is its first byte. -/
theorem check_high_byte {check : UInt32} (hfirst : (putU32Be check)[1]? = some 0)
    (hsecond : (putU32Be check)[2]? = some 0) (hthird : (putU32Be check)[3]? = some 0) :
    check.toBitVec = (check >>> 24).toUInt8.toBitVec.setWidth 32 <<< 24 := by
  have hlow := check_low_bytes hsecond hthird
  have hmiddle : (check >>> 16).toUInt8 = 0 := by simpa [putU32Be] using hfirst
  apply BitVec.eq_of_getLsbD_eq
  intro i hi
  by_cases hbelow : i < 24
  · rw [BitVec.getLsbD_shiftLeft, decide_eq_true hbelow]
    by_cases hlast : i < 16
    · have hbit := congrArg (fun v : BitVec 16 => v.getLsbD i) hlow
      simpa [hlast] using hbit
    · have hbit := congrArg (fun byte : UInt8 => byte.toBitVec.getLsbD (i - 16)) hmiddle
      simpa [UInt32.toBitVec_shiftRight, show i - 16 < 8 by omega,
        show 16 + (i - 16) = i by omega] using hbit
  · simp [hi, hbelow, UInt32.toBitVec_shiftRight, show i - 24 < 8 by omega,
      show 24 + (i - 24) = i by omega]

/-- A burst across the border of the check sequence, three bytes long, breaks the seal. -/
theorem border_burst_seen {start : Nat} (h : coveredLeft.length = coveredRight.length)
    (hstart : start < coveredLeft.length) (hend : coveredLeft.length ≤ start + 2)
    (hbefore : ∀ i, i < start → coveredRight[i]? = coveredLeft[i]?)
    (hcheck : ∀ i, start + 3 - coveredLeft.length ≤ i → i < 4 →
      (putU32Be (crc32c coveredRight))[i]? = (putU32Be (crc32c coveredLeft))[i]?) :
    coveredLeft = coveredRight := by
  obtain ⟨pattern, hpattern⟩ :
      ∃ pattern, pattern = coveredLeft.zipWith (· ^^^ ·) coveredRight := ⟨_, rfl⟩
  have hlength : pattern.length = coveredLeft.length := by
    rw [hpattern, List.length_zipWith]
    omega
  have hload := crc32c_xor_end hpattern h (by omega) (by omega) hbefore
  have hzero (i : Nat) (hi : start + 3 - coveredLeft.length ≤ i) (hlt : i < 4) :
      (putU32Be (crc32c coveredLeft ^^^ crc32c coveredRight))[i]? = some 0 := by
    rw [← put_u32_be_xor]
    exact xor_get hlt (hcheck i hi hlt)
  generalize crc32c coveredLeft ^^^ crc32c coveredRight = check at hload hzero
  have hrest : (pattern.drop start).length = coveredLeft.length - start := by
    rw [List.length_drop, hlength]
  have hbits : (streamBits (pattern.drop start)).length ≤ 32 := by
    rw [stream_bits_length]
    omega
  have hzeros : loadBits 32 (streamBits (pattern.drop start)) = 0#32 := by
    have hcases : coveredLeft.length - start = 1 ∨ coveredLeft.length - start = 2 := by omega
    rcases hcases with hone | htwo
    · obtain ⟨byte, hbyte⟩ := List.length_eq_one_iff.mp (hrest.trans hone)
      have hlow := check_low_bytes (hzero 2 (by omega) (by omega)) (hzero 3 (by omega) (by omega))
      rw [hbyte, stream_bits_cons, streamBits, List.flatMap_nil, List.append_nil, load_bits_byte]
        at hload ⊢
      rw [hload, hone] at hlow
      have hbyteZero : byte.toBitVec = 0#8 :=
        BitVec.eq_of_toFin_eq (last_byte_seen byte.toBitVec.toFin hlow)
      rw [hbyteZero]
      rfl
    · have hhigh := check_high_byte (hzero 1 (by omega) (by omega)) (hzero 2 (by omega) (by omega))
        (hzero 3 (by omega) (by omega))
      have hback := crc_back_steps castagnoli_msb (loadBits 32 (streamBits (pattern.drop start))) 16
      have hshort : loadBits 32 (streamBits (pattern.drop start)) >>> 16 = 0#32 := by
        apply BitVec.eq_of_getLsbD_eq
        intro i hi
        have hpast : (streamBits (pattern.drop start)).length ≤ 16 + i := by
          rw [stream_bits_length]
          omega
        rw [BitVec.getLsbD_ushiftRight, load_bits_get]
        simp [List.getElem?_eq_none hpast]
      rw [htwo] at hload
      rw [← hback, ← hload, hhigh] at hshort
      have htop : (check >>> 24).toUInt8.toBitVec = 0#8 :=
        BitVec.eq_of_toFin_eq (last_bytes_seen (check >>> 24).toUInt8.toBitVec.toFin hshort)
      rw [htop] at hhigh
      exact crc_steps_eq_zero castagnoli_msb (hload.symm.trans hhigh)
  have hblank := blank_of_load hbits hzeros
  refine eq_of_xor_zeros h ?_
  rw [← hpattern]
  have hpadded := eq_padded_end hpattern h (by omega) hbefore
  rw [eq_zeros_of_stream_bits hblank, List.replicate_append_replicate] at hpadded
  rw [hpadded, List.length_replicate]

/-! ## Refusal -/

/-- Two accepted byte strings of one length that differ do so in evenly many bits, at least four. -/
theorem accepted_apart (hleft : Sealed left coveredLeft) (hright : Sealed right coveredRight)
    (hlength : right.length = left.length) (hne : right ≠ left) :
    4 ≤ bitErrors left right ∧ bitErrors left right % 2 = 0 := by
  have hsize := hleft.length_eq
  have hle := hleft.length_le
  simp only [lmAirMaxWireBytes] at hle
  have hcovered := hleft.covered_length hright hlength
  have hunseen := error_bits_unseen hcovered
  rw [← error_bits_weight hleft hright hcovered]
  refine ⟨four_le_weight castagnoli_msb castagnoli_parity castagnoli_no_return ?_ hunseen ?_,
    crc_unseen_even castagnoli_msb castagnoli_parity hunseen⟩
  · simp only [errorBits, List.length_append, stream_bits_length, List.length_zipWith,
      List.length_reverse, putU32Be, List.length_cons, List.length_nil]
    omega
  · by_contra hblank
    rw [errorBits, List.mem_append, not_or] at hblank
    have hsame := eq_of_xor_zeros hcovered (eq_zeros_of_stream_bits hblank.1)
    exact hne (by rw [hleft.wire_eq, hright.wire_eq, hsame])

/-- Two accepted byte strings that agree outside of a window agree there under the check sequence
and in it. -/
theorem Sealed.agree (hleft : Sealed left coveredLeft) (hright : Sealed right coveredRight)
    (hlength : right.length = left.length) {start size : Nat}
    (hwithin : AgreeOutside start size left right) :
    (∀ i, i < start ∨ start + size ≤ i → coveredRight[i]? = coveredLeft[i]?) ∧
      ∀ i, coveredLeft.length + i < start ∨ start + size ≤ coveredLeft.length + i →
        (putU32Be (crc32c coveredRight))[i]? = (putU32Be (crc32c coveredLeft))[i]? := by
  have hcovered := hleft.covered_length hright hlength
  constructor
  · intro i hi
    have hsame := hwithin i hi
    by_cases hlt : i < coveredLeft.length
    · rwa [hleft.wire_eq, hright.wire_eq, List.getElem?_append_left hlt,
        List.getElem?_append_left (by omega)] at hsame
    · rw [List.getElem?_eq_none (by omega), List.getElem?_eq_none (by omega)]
  · intro i hi
    have hsame := hwithin (coveredLeft.length + i) hi
    rwa [hleft.wire_eq, hright.wire_eq, List.getElem?_append_right (by omega),
      List.getElem?_append_right (by omega), ← hcovered, Nat.add_sub_cancel_left] at hsame

/-- What agrees under the check sequence is the same. -/
theorem Sealed.eq_of_covered (hleft : Sealed left coveredLeft) (hright : Sealed right coveredRight)
    (h : coveredLeft = coveredRight) : right = left := by
  rw [hleft.wire_eq, hright.wire_eq, h]

/-- Two accepted byte strings do not differ in four consecutive bytes under the check sequence
alone. -/
theorem accepted_not_covered (hleft : Sealed left coveredLeft)
    (hright : Sealed right coveredRight) (hlength : right.length = left.length) {start size : Nat}
    (hsize : size ≤ 4) (hwindow : start + size ≤ coveredLeft.length)
    (hwithin : AgreeOutside start size left right) : right = left := by
  obtain ⟨hagree, hcheck⟩ := hleft.agree hright hlength hwithin
  refine hleft.eq_of_covered hright (covered_burst_seen (hleft.covered_length hright hlength) hsize
    hwindow hagree (put_u32_be_injective (List.ext_getElem? fun i => ?_)))
  exact (hcheck i (Or.inr (by omega))).symm

/-- Two accepted byte strings that agree under the check sequence agree in it. -/
theorem accepted_not_check (hleft : Sealed left coveredLeft) (hright : Sealed right coveredRight)
    (hlength : right.length = left.length) {start size : Nat}
    (hstart : coveredLeft.length ≤ start) (hwithin : AgreeOutside start size left right) :
    right = left := by
  obtain ⟨hagree, -⟩ := hleft.agree hright hlength hwithin
  have hcovered := hleft.covered_length hright hlength
  refine hleft.eq_of_covered hright (List.ext_getElem? fun i => ?_)
  by_cases hlt : i < start
  · exact (hagree i (Or.inl hlt)).symm
  · rw [List.getElem?_eq_none (by omega), List.getElem?_eq_none (by omega)]

/-- Two accepted byte strings do not differ in three consecutive bytes alone. -/
theorem accepted_not_within (hleft : Sealed left coveredLeft) (hright : Sealed right coveredRight)
    (hlength : right.length = left.length) {start : Nat}
    (hwithin : AgreeOutside start 3 left right) : right = left := by
  obtain ⟨hagree, hcheck⟩ := hleft.agree hright hlength hwithin
  have hcovered := hleft.covered_length hright hlength
  by_cases hinside : start + 3 ≤ coveredLeft.length
  · exact accepted_not_covered hleft hright hlength (by omega) hinside hwithin
  by_cases hbehind : coveredLeft.length ≤ start
  · exact accepted_not_check hleft hright hlength hbehind hwithin
  · exact hleft.eq_of_covered hright (border_burst_seen hcovered (by omega) (by omega)
      (fun i hi => hagree i (Or.inl hi)) (fun i hi _ => hcheck i (Or.inr (by omega))))

end Pair

/-- The C decoder returns a frame only with the status `LM_AIR_OK`. -/
theorem lm_air_decode_ok_of_frame {wire : List UInt8} {frame : LmAirFrame}
    (h : (lmAirFrameDecode wire).2 = some frame) : (lmAirFrameDecode wire).1 = .ok := by
  dsimp only [lmAirFrameDecode] at h ⊢
  split_ifs at h ⊢
  rfl

/-- A corrupted frame is not sealed any more. -/
theorem Corruption.not_sealed {sent received coveredSent coveredReceived : List UInt8}
    (h : Corruption sent received) (hsent : Sealed sent coveredSent) :
    ¬ Sealed received coveredReceived := by
  intro hreceived
  cases h with
  | few hlength hne hbits =>
      have hapart := accepted_apart hsent hreceived hlength hne
      omega
  | odd hlength hbits =>
      have hne : received ≠ sent := by
        rintro rfl
        rw [bit_errors_self] at hbits
        omega
      have hapart := accepted_apart hsent hreceived hlength hne
      omega
  | short hlength hne start hwithin =>
      exact hne (accepted_not_within hsent hreceived hlength hwithin)
  | covered hlength hne start hwithin hcovered =>
      have hsize := hsent.length_eq
      simp only [lmAirFrameCrcBytes] at hcovered
      exact hne (accepted_not_covered hsent hreceived hlength (Nat.le_refl 4) (by omega) hwithin)
  | check hlength hne start hwithin hcheck =>
      have hsize := hsent.length_eq
      simp only [lmAirFrameCrcBytes] at hcheck
      exact hne (accepted_not_check hsent hreceived hlength (by omega) hwithin)

/-- The decoders accept no frame that a corruption made of an accepted one. -/
theorem corrupted_refused {sent received : List UInt8} {frame : SparseRadioFrame}
    (hsent : SparseRadioFrame.decode sent = .ok frame) (h : Corruption sent received) :
    (∀ other, SparseRadioFrame.decode received ≠ .ok other) ∧
      (lmAirFrameDecode received).2 = none := by
  have hrust (other : SparseRadioFrame) : SparseRadioFrame.decode received ≠ .ok other :=
    fun hother => h.not_sealed (sealed_of_decode hsent) (sealed_of_decode hother)
  refine ⟨hrust, ?_⟩
  cases hdecode : (lmAirFrameDecode received).2 with
  | none => rfl
  | some found =>
      obtain ⟨other, hother⟩ := decode_of_lm_air_decode (lm_air_decode_ok_of_frame hdecode)
      exact absurd hother (hrust other)

/-- The documented wire vector with one bit flipped in its header, its payload and its check
sequence. -/
def flippedWire : List UInt8 :=
  [0xa1, 0x32, 0x12, 0x34, 0x01, 0x03, 0x00, 0x01, 0x1f, 0x04, 0xbe, 0xef, 0xde, 0xad, 0xbe, 0x6f,
    0xc2, 0x0b, 0xbd, 0x05]

/-- The flipped wire is a corruption of the sample. -/
theorem flipped_wire_corruption : Corruption SparseRadioFrame.sampleWire flippedWire :=
  .few rfl (by decide) (by decide +kernel)

/-- The sample is accepted. -/
theorem sample_wire_decodes :
    SparseRadioFrame.decode SparseRadioFrame.sampleWire = .ok SparseRadioFrame.sample := by
  decide +kernel

/-- The flipped wire is refused by both decoders. -/
theorem corrupted_refused_flipped :
    (∀ other, SparseRadioFrame.decode flippedWire ≠ .ok other) ∧
      (lmAirFrameDecode flippedWire).2 = none :=
  corrupted_refused sample_wire_decodes flipped_wire_corruption

end LatentMesh.AirC
