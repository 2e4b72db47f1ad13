import Mathlib.Algebra.GroupWithZero.Nat
import LatentMesh.Lib.Convolutional
import LatentMesh.Lib.Crc

/-!
# Errors that a cyclic redundancy register detects

`crcFeed poly x bits` is the register after the bits of a string have entered it at the low end. It
is linear (`crc_feed_xor`), and up to `w` bits may be loaded at once (`crc_feed_load`). An error
pattern goes unseen exactly when it drives the zero register back to zero. When the polynomial has
its top bit, no burst of `w` bits does that (`crc_burst_seen`), and no single bit. When it has an
odd number of terms besides the leading one, every unseen pattern has even weight
(`crc_unseen_even`). When no run of up to `n` steps brings the register `1` back to itself, no
pattern of up to `n` bits has weight two, so its weight is at least four (`four_le_weight`).
-/

namespace LatentMesh.Lib

variable {w : Nat}

/-- A register with only its low bit possibly set. -/
def entry (w : Nat) (bit : Bool) : BitVec w := (BitVec.ofBool bit).setWidth w

/-- The register after the bits of a string have entered it, one for each step. -/
def crcFeed (poly : BitVec w) : BitVec w → List Bool → BitVec w
  | x, [] => x
  | x, bit :: bits => crcFeed poly (crcStep poly (x ^^^ entry w bit)) bits

/-- A bit string in a register, the first bit lowest. -/
def loadBits (w : Nat) (bits : List Bool) : BitVec w := (BitVec.ofBoolListLE bits).setWidth w

/-- An entering bit stands at the lowest place. -/
@[simp] theorem entry_get (bit : Bool) (i : Nat) :
    (entry w bit).getLsbD i = (decide (i < w) && decide (i = 0) && bit) := by
  cases i <;> cases bit <;> simp [entry]

@[simp] theorem entry_false : entry w false = 0#w := by
  apply BitVec.eq_of_getLsbD_eq
  simp

/-- Entering is linear. -/
theorem entry_xor (a b : Bool) : entry w (a ^^ b) = entry w a ^^^ entry w b := by
  apply BitVec.eq_of_getLsbD_eq
  intro i hi
  simp only [entry_get, BitVec.getLsbD_xor]
  cases a <;> cases b <;> simp

/-- The bits of a loaded register are those of the list. -/
@[simp] theorem load_bits_get (bits : List Bool) (i : Nat) :
    (loadBits w bits).getLsbD i = (decide (i < w) && bits.getD i false) := by
  rw [loadBits, BitVec.getLsbD_setWidth, BitVec.getLsbD_ofBoolListLE]

@[simp] theorem crc_step_zero (poly : BitVec w) : crcStep poly 0#w = 0#w := by simp [crcStep]

@[simp] theorem crc_steps_zero (poly : BitVec w) (n : Nat) : (crcStep poly)^[n] 0#w = 0#w :=
  Function.iterate_fixed (crc_step_zero poly) n

/-! ## Feeding -/

/-- Feeding joined bits feeds one part after the other. -/
theorem crc_feed_append (poly x : BitVec w) (first second : List Bool) :
    crcFeed poly x (first ++ second) = crcFeed poly (crcFeed poly x first) second := by
  induction first generalizing x with
  | nil => rfl
  | cons bit first ih => exact ih _

/-- Feeding is linear over exclusive or. -/
theorem crc_feed_xor (poly x y : BitVec w) {left right : List Bool}
    (h : left.length = right.length) :
    crcFeed poly (x ^^^ y) (left.zipWith (· ^^ ·) right) =
      crcFeed poly x left ^^^ crcFeed poly y right := by
  induction left generalizing x y right with
  | nil =>
      obtain rfl := List.eq_nil_of_length_eq_zero h.symm
      rfl
  | cons a left ih =>
      obtain ⟨b, right, rfl⟩ := List.exists_cons_of_length_eq_add_one h.symm
      have hstep : crcStep poly (x ^^^ y ^^^ entry w (a ^^ b)) =
          crcStep poly (x ^^^ entry w a) ^^^ crcStep poly (y ^^^ entry w b) := by
        rw [← crc_step_xor, entry_xor]
        congr 1
        ac_rfl
      simp only [List.zipWith_cons_cons, crcFeed, hstep]
      exact ih _ _ (by simpa using h)

/-- Zeros only step the register. -/
theorem crc_feed_zeros (poly x : BitVec w) (n : Nat) :
    crcFeed poly x (List.replicate n false) = (crcStep poly)^[n] x := by
  induction n generalizing x with
  | zero => rfl
  | succ n ih =>
      rw [List.replicate_succ, crcFeed, entry_false, BitVec.xor_zero, ih,
        Function.iterate_succ_apply]

/-- The first bit of a loaded string is the low bit. -/
theorem load_bits_cons (bit : Bool) (bits : List Bool) :
    loadBits w (bit :: bits) = entry w bit ^^^ (loadBits w bits <<< 1) := by
  apply BitVec.eq_of_getLsbD_eq
  intro i hi
  rw [BitVec.getLsbD_xor, BitVec.getLsbD_shiftLeft, load_bits_get, entry_get, load_bits_get]
  cases i with
  | zero => simp
  | succ i => simp [hi, show i < w by omega]

/-- A string that is shorter than the register shifts out without a feedback. -/
theorem crc_step_load {poly : BitVec w} {bits : List Bool} (h : bits.length < w) :
    crcStep poly (loadBits w bits <<< 1) = loadBits w bits := by
  have hlow : (loadBits w bits <<< 1).getLsbD 0 = false := by
    rw [BitVec.getLsbD_shiftLeft]
    simp
  have hget (i : Nat) : (crcStep poly (loadBits w bits <<< 1)).getLsbD i =
      (loadBits w bits <<< 1).getLsbD (1 + i) := by
    rw [crcStep, hlow, if_neg Bool.false_ne_true, BitVec.getLsbD_xor, BitVec.getLsbD_ushiftRight]
    simp
  apply BitVec.eq_of_getLsbD_eq
  intro i hi
  rw [hget, BitVec.getLsbD_shiftLeft, load_bits_get, load_bits_get, Nat.add_sub_cancel_left]
  by_cases hlast : i + 1 < w
  · simp [hi, show 1 + i < w by omega]
  · have hpast : bits.length ≤ i := by omega
    simp [List.getElem?_eq_none hpast]

/-- Up to `w` bits may be loaded at once and stepped through afterwards. -/
theorem crc_feed_load (poly x : BitVec w) {bits : List Bool} (h : bits.length ≤ w) :
    crcFeed poly x bits = (crcStep poly)^[bits.length] (x ^^^ loadBits w bits) := by
  induction bits generalizing x with
  | nil =>
      have hload : loadBits w [] = 0#w := by
        apply BitVec.eq_of_getLsbD_eq
        simp
      rw [hload, BitVec.xor_zero]
      rfl
  | cons bit bits ih =>
      rw [List.length_cons] at h
      rw [crcFeed, ih _ (by omega), List.length_cons, Function.iterate_succ_apply, load_bits_cons,
        ← BitVec.xor_assoc, crc_step_xor poly (x ^^^ entry w bit), crc_step_load (by omega)]

/-! ## Bursts -/

section Detection

variable {poly : BitVec w}

/-- A polynomial with its top bit loses no information in a step. -/
theorem crc_step_eq_zero (hpoly : poly.msb = true) {x : BitVec w} (h : crcStep poly x = 0#w) :
    x = 0#w := by
  have hw : 0 < w := by
    rcases Nat.eq_zero_or_pos w with rfl | hw
    · simp [BitVec.msb_eq_getLsbD_last] at hpoly
    · exact hw
  have htop : poly.getLsbD (w - 1) = true := by rwa [BitVec.msb_eq_getLsbD_last] at hpoly
  have hget (i : Nat) : (x.getLsbD (1 + i) ^^ (x.getLsbD 0 && poly.getLsbD i)) = false := by
    have hbit := congrArg (fun v : BitVec w => v.getLsbD i) h
    simp only [crcStep, BitVec.getLsbD_xor, BitVec.getLsbD_ushiftRight, BitVec.getLsbD_zero] at hbit
    cases hlow : x.getLsbD 0 with
    | false => simpa [hlow] using hbit
    | true => simpa [hlow] using hbit
  have hlow : x.getLsbD 0 = false := by
    have := hget (w - 1)
    rwa [BitVec.getLsbD_of_ge x (1 + (w - 1)) (by omega), htop, Bool.and_true, Bool.false_xor]
      at this
  apply BitVec.eq_of_getLsbD_eq
  intro i _
  cases i with
  | zero => simpa using hlow
  | succ i =>
      have := hget i
      rw [hlow, Bool.false_and, Bool.xor_false, Nat.add_comm] at this
      simpa using this

/-- Steps of a register with the top bit in its polynomial lose nothing. -/
theorem crc_steps_eq_zero (hpoly : poly.msb = true) {x : BitVec w} {n : Nat}
    (h : (crcStep poly)^[n] x = 0#w) : x = 0#w := by
  induction n with
  | zero => exact h
  | succ n ih =>
      rw [Function.iterate_succ_apply'] at h
      exact ih (crc_step_eq_zero hpoly h)

/-- The sum of two registers is zero when they are equal. -/
theorem xor_eq_zero {x y : BitVec w} : x ^^^ y = 0#w ↔ x = y := by
  constructor
  · intro h
    rw [← BitVec.xor_zero (x := x), ← BitVec.xor_self (x := y), ← BitVec.xor_assoc, h,
      BitVec.zero_xor]
  · rintro rfl
    exact BitVec.xor_self

/-- Zeros before an error pattern change nothing, and zeros after it hide nothing. -/
theorem crc_feed_padded (hpoly : poly.msb = true) (before after : Nat) (bits : List Bool) :
    crcFeed poly 0#w (List.replicate before false ++ bits ++ List.replicate after false) = 0#w ↔
      crcFeed poly 0#w bits = 0#w := by
  rw [crc_feed_append, crc_feed_append, crc_feed_zeros, crc_feed_zeros, crc_steps_zero]
  refine ⟨crc_steps_eq_zero hpoly, fun h => ?_⟩
  rw [h, crc_steps_zero]

/-- A load without a one comes from a blank string. -/
theorem blank_of_load {bits : List Bool} (hlength : bits.length ≤ w) (h : loadBits w bits = 0#w) :
    true ∉ bits := by
  intro hmem
  obtain ⟨i, hi, hbit⟩ := List.mem_iff_getElem.mp hmem
  have hget := congrArg (fun v : BitVec w => v.getLsbD i) h
  simp [List.getElem?_eq_getElem hi, hbit] at hget
  omega

/-- A pattern of at most `w` bits with a one in it is seen. -/
theorem crc_burst_seen (hpoly : poly.msb = true) {bits : List Bool} (hlength : bits.length ≤ w)
    (h : crcFeed poly 0#w bits = 0#w) : true ∉ bits := by
  rw [crc_feed_load poly _ hlength, BitVec.zero_xor] at h
  exact blank_of_load hlength (crc_steps_eq_zero hpoly h)

/-- A step backwards: the top bit tells whether the polynomial was added. -/
def crcBack (poly x : BitVec w) : BitVec w :=
  ((x ^^^ if x.msb then poly else 0) <<< 1) ^^^ entry w x.msb

/-- A step is undone by a step back. -/
theorem crc_back_step (hpoly : poly.msb = true) (x : BitVec w) :
    crcBack poly (crcStep poly x) = x := by
  rw [BitVec.msb_eq_getLsbD_last] at hpoly
  have hmsb : (crcStep poly x).msb = x.getLsbD 0 := by
    rw [BitVec.msb_eq_getLsbD_last, crcStep, BitVec.getLsbD_xor, BitVec.getLsbD_ushiftRight]
    rcases Nat.eq_zero_or_pos w with rfl | hw
    · simp at hpoly
    · rw [BitVec.getLsbD_of_ge x (1 + (w - 1)) (by omega)]
      cases x.getLsbD 0 with
      | false => simp
      | true => simp [hpoly]
  have hstep : crcStep poly x ^^^ (if x.getLsbD 0 then poly else 0) = x >>> 1 := by
    rw [crcStep, BitVec.xor_assoc, BitVec.xor_self, BitVec.xor_zero]
  rw [crcBack, hmsb, hstep]
  apply BitVec.eq_of_getLsbD_eq
  intro i hi
  rw [BitVec.getLsbD_xor, BitVec.getLsbD_shiftLeft, BitVec.getLsbD_ushiftRight, entry_get]
  cases i with
  | zero => simp [hi]
  | succ i => simp [hi, Nat.add_comm 1 i]

/-- Steps are undone by as many steps back. -/
theorem crc_back_steps (hpoly : poly.msb = true) (x : BitVec w) (n : Nat) :
    (crcBack poly)^[n] ((crcStep poly)^[n] x) = x :=
  Function.LeftInverse.iterate (crc_back_step hpoly) n x

/-! ## Two ones -/

/-- The register `1` does not come back to itself within `n` steps. -/
def NoReturn (poly : BitVec w) (n : Nat) : Prop :=
  ∀ k, 0 < k → k ≤ n → (crcStep poly)^[k] (entry w true) ≠ entry w true

/-- A walk of the register that stops when it meets `target`. -/
def avoids (poly target : BitVec w) : BitVec w → Nat → Bool
  | _, 0 => true
  | x, n + 1 => crcStep poly x != target && avoids poly target (crcStep poly x) n

/-- The computable check says that none of the first steps reaches the target. -/
theorem avoids_iff (target x : BitVec w) (n : Nat) :
    avoids poly target x n = true ↔ ∀ k, 0 < k → k ≤ n → (crcStep poly)^[k] x ≠ target := by
  induction n generalizing x with
  | zero =>
      simp only [avoids, true_iff]
      omega
  | succ n ih =>
      simp only [avoids, Bool.and_eq_true, bne_iff_ne, ih]
      constructor
      · rintro ⟨hfirst, hrest⟩ k hk hle
        cases k with
        | zero => omega
        | succ k =>
            rw [Function.iterate_succ_apply]
            rcases Nat.eq_zero_or_pos k with rfl | hpos
            · exact hfirst
            · exact hrest k hpos (by omega)
      · intro h
        exact ⟨h 1 (by omega) (by omega), fun k hk hle => h (k + 1) (by omega) (by omega)⟩

/-- A string with a one in it begins with zeros and a one. -/
theorem exists_first_one {bits : List Bool} {n : Nat} (h : weight bits = n + 1) :
    ∃ zeros rest, bits = List.replicate zeros false ++ true :: rest ∧ weight rest = n := by
  induction bits with
  | nil => simp at h
  | cons bit bits ih =>
      cases bit with
      | true =>
          rw [weight_cons, Bool.toNat_true] at h
          exact ⟨0, bits, rfl, by omega⟩
      | false =>
          obtain ⟨zeros, rest, rfl, hrest⟩ := ih (by simpa using h)
          exact ⟨zeros + 1, rest, rfl, hrest⟩

/-- Bits of weight zero are all zero. -/
theorem eq_zeros_of_weight {bits : List Bool} (h : weight bits = 0) :
    bits = List.replicate bits.length false := by
  refine List.eq_replicate_iff.mpr ⟨rfl, fun bit hbit => ?_⟩
  cases bit with
  | false => rfl
  | true => exact absurd hbit (List.count_eq_zero.mp h)

/-- A pattern of two ones is seen while the register does not return between them. -/
theorem crc_pair_seen (hpoly : poly.msb = true) {bits : List Bool} {n : Nat}
    (hreturn : NoReturn poly n) (hlength : bits.length ≤ n)
    (h : crcFeed poly 0#w bits = 0#w) : weight bits ≠ 2 := by
  intro hweight
  obtain ⟨before, rest, rfl, hrest⟩ := exists_first_one hweight
  obtain ⟨between, tail, rfl, htail⟩ := exists_first_one hrest
  rw [eq_zeros_of_weight htail] at h hlength
  simp only [List.length_append, List.length_replicate, List.length_cons] at hlength
  -- the first one has stepped past the zeros between the two, and the second one cancels it
  rw [crc_feed_append, crc_feed_zeros, crc_steps_zero, crcFeed, BitVec.zero_xor, crc_feed_append,
    crc_feed_zeros, crcFeed, crc_feed_zeros] at h
  have hcancel := xor_eq_zero.mp (crc_step_eq_zero hpoly (crc_steps_eq_zero hpoly h))
  rw [← Function.iterate_succ_apply] at hcancel
  exact hreturn (between + 1) (Nat.succ_pos _) (by omega) hcancel

/-! ## Parity -/

/-- The parity of a register as a sum over the places of its bits. -/
theorem parity_eq_range (x : BitVec w) :
    parity x = (List.range w).foldr (fun i acc => x.getLsbD i ^^ acc) false := by
  rw [parity, ← List.map_coe_finRange_eq_range, List.foldr_map]
  rfl

/-- A sum over joined places is the sum of the two parts. -/
theorem foldr_xor_append (left right : List Nat) (f : Nat → Bool) :
    (left ++ right).foldr (fun i acc => f i ^^ acc) false =
      (left.foldr (fun i acc => f i ^^ acc) false ^^
        right.foldr (fun i acc => f i ^^ acc) false) := by
  induction left with
  | nil => simp
  | cons i left ih => simp only [List.cons_append, List.foldr_cons, ih, Bool.xor_assoc]

/-- Shifting out the low bit takes it out of the parity. -/
theorem parity_shift (x : BitVec w) : parity (x >>> 1) = (parity x ^^ x.getLsbD 0) := by
  have hfront : (List.range (w + 1)).foldr (fun i acc => x.getLsbD i ^^ acc) false =
      (x.getLsbD 0 ^^ parity (x >>> 1)) := by
    rw [List.range_succ_eq_map, List.foldr_cons, List.foldr_map, parity_eq_range]
    simp only [BitVec.getLsbD_ushiftRight, Nat.succ_eq_add_one, Nat.add_comm 1]
  have hback : (List.range (w + 1)).foldr (fun i acc => x.getLsbD i ^^ acc) false = parity x := by
    rw [List.range_succ, foldr_xor_append, parity_eq_range]
    simp
  rw [← hback, hfront, Bool.xor_comm, ← Bool.xor_assoc, Bool.xor_self, Bool.false_xor]

/-- The parity of an entering bit is the bit. -/
theorem parity_entry (hw : 0 < w) (bit : Bool) : parity (entry w bit) = bit := by
  have hshift : entry w bit >>> 1 = 0#w := by
    apply BitVec.eq_of_getLsbD_eq
    intro i _
    rw [BitVec.getLsbD_ushiftRight, entry_get]
    simp
  have h := parity_shift (entry w bit)
  rw [hshift, parity_zero, entry_get] at h
  simpa [hw] using h.symm

/-- A polynomial of odd parity keeps the parity of the register. -/
theorem parity_crc_step (hodd : parity poly = true) (x : BitVec w) :
    parity (crcStep poly x) = parity x := by
  rw [crcStep, parity_xor, parity_shift]
  cases x.getLsbD 0 with
  | false => simp
  | true => simp [hodd]

/-- With a polynomial of odd weight, the register keeps the parity of all bits that were fed. -/
theorem parity_crc_feed (hw : 0 < w) (hodd : parity poly = true) (x : BitVec w)
    (bits : List Bool) :
    parity (crcFeed poly x bits) = (parity x ^^ decide (weight bits % 2 = 1)) := by
  induction bits generalizing x with
  | nil => simp [crcFeed]
  | cons bit bits ih =>
      rw [crcFeed, ih, parity_crc_step hodd, parity_xor, parity_entry hw, Bool.xor_assoc]
      congr 1
      cases bit with
      | false => simp
      | true =>
          rw [weight_cons, Bool.toNat_true]
          by_cases hbits : weight bits % 2 = 1
          · rw [decide_eq_true hbits, decide_eq_false (by omega)]
            rfl
          · rw [decide_eq_false hbits, decide_eq_true (by omega)]
            rfl

/-- Every pattern that goes unseen has an even number of ones. -/
theorem crc_unseen_even (hpoly : poly.msb = true) (hodd : parity poly = true) {bits : List Bool}
    (h : crcFeed poly 0#w bits = 0#w) : weight bits % 2 = 0 := by
  have hw : 0 < w := by
    rcases Nat.eq_zero_or_pos w with rfl | hw
    · simp [BitVec.msb_eq_getLsbD_last] at hpoly
    · exact hw
  have hparity := parity_crc_feed hw hodd 0#w bits
  rw [h, parity_zero, Bool.false_xor] at hparity
  have := of_decide_eq_false hparity.symm
  omega

/-- A pattern that goes unseen and is not blank has at least four ones. -/
theorem four_le_weight (hpoly : poly.msb = true) (hodd : parity poly = true) {n : Nat}
    (hreturn : NoReturn poly n) {bits : List Bool} (hlength : bits.length ≤ n)
    (h : crcFeed poly 0#w bits = 0#w) (hblank : true ∈ bits) : 4 ≤ weight bits := by
  have heven := crc_unseen_even hpoly hodd h
  have htwo := crc_pair_seen hpoly hreturn hlength h
  have hpos : 0 < weight bits := List.count_pos_iff.mpr hblank
  omega

end Detection

/-! ## Bytes -/

/-- The bits of a byte from the low end up. -/
def byteBits (byte : UInt8) : List Bool := (List.range 8).map byte.toBitVec.getLsbD

/-- The bits of a byte string in the order in which they enter a register. -/
def streamBits (bytes : List UInt8) : List Bool := bytes.flatMap byteBits

@[simp] theorem byte_bits_length (byte : UInt8) : (byteBits byte).length = 8 := by simp [byteBits]

/-- The bits of a stream begin with those of its first byte. -/
theorem stream_bits_cons (byte : UInt8) (bytes : List UInt8) :
    streamBits (byte :: bytes) = byteBits byte ++ streamBits bytes := rfl

/-- Every byte of a stream has eight bits. -/
@[simp] theorem stream_bits_length (bytes : List UInt8) :
    (streamBits bytes).length = 8 * bytes.length := by
  induction bytes with
  | nil => rfl
  | cons byte bytes ih =>
      rw [stream_bits_cons, List.length_append, byte_bits_length, ih, List.length_cons]
      omega

/-- The bits of joined streams are joined. -/
@[simp] theorem stream_bits_append (first second : List UInt8) :
    streamBits (first ++ second) = streamBits first ++ streamBits second :=
  List.flatMap_append

/-- The bits of a sum of two bytes are the sums of their bits. -/
theorem byte_bits_xor (a b : UInt8) :
    byteBits (a ^^^ b) = (byteBits a).zipWith (· ^^ ·) (byteBits b) := by
  rw [byteBits, byteBits, byteBits, List.zipWith_map, List.zipWith_self, UInt8.toBitVec_xor]
  exact List.map_congr_left fun i _ => BitVec.getLsbD_xor

/-- The zero byte has no bit set. -/
theorem byte_bits_zero : byteBits 0 = List.replicate 8 false := by decide

/-- The bits of a byte tell the byte. -/
theorem byte_bits_injective {a b : UInt8} (h : byteBits a = byteBits b) : a = b := by
  refine UInt8.toBitVec_inj.mp (BitVec.eq_of_getLsbD_eq fun i hi => ?_)
  have hget := congrArg (fun bits : List Bool => bits[i]?) h
  simpa [byteBits, List.getElem?_range, hi] using hget

/-- The bits of a sum of two streams are the sums of their bits. -/
theorem stream_bits_xor {left right : List UInt8} (h : left.length = right.length) :
    streamBits (left.zipWith (· ^^^ ·) right) =
      (streamBits left).zipWith (· ^^ ·) (streamBits right) := by
  induction left generalizing right with
  | nil =>
      obtain rfl := List.eq_nil_of_length_eq_zero h.symm
      rfl
  | cons a left ih =>
      obtain ⟨b, right, rfl⟩ := List.exists_cons_of_length_eq_add_one h.symm
      have hlengths : left.length = right.length := by simpa using h
      have hrest := ih hlengths
      rw [List.zipWith_cons_cons, stream_bits_cons, stream_bits_cons, stream_bits_cons,
        List.zipWith_append (by simp), byte_bits_xor, hrest]

/-- Zero bytes have no bit set. -/
theorem stream_bits_zeros (n : Nat) :
    streamBits (List.replicate n 0) = List.replicate (8 * n) false := by
  induction n with
  | zero => rfl
  | succ n ih =>
      rw [List.replicate_succ, stream_bits_cons, ih, byte_bits_zero,
        List.replicate_append_replicate]
      congr 1
      omega

/-- The weight of joined bits is the sum of the weights. -/
theorem weight_append (first second : List Bool) :
    weight (first ++ second) = weight first + weight second := List.count_append

/-- The weight of a stream is the sum over its bytes. -/
theorem weight_stream_bits (bytes : List UInt8) :
    weight (streamBits bytes) = (bytes.map fun byte => weight (byteBits byte)).sum := by
  induction bytes with
  | nil => rfl
  | cons byte bytes ih =>
      rw [stream_bits_cons, weight_append, ih, List.map_cons, List.sum_cons]

/-- A byte string without a one in it is blank. -/
theorem eq_zeros_of_stream_bits {bytes : List UInt8} (h : true ∉ streamBits bytes) :
    bytes = List.replicate bytes.length 0 := by
  refine List.eq_replicate_iff.mpr ⟨rfl, fun byte hbyte => byte_bits_injective ?_⟩
  rw [byte_bits_zero]
  refine List.eq_replicate_iff.mpr ⟨byte_bits_length byte, fun bit hbit => ?_⟩
  cases bit with
  | false => rfl
  | true => exact absurd (List.mem_flatMap.mpr ⟨byte, hbyte, hbit⟩) h

/-- Loading the bits of a byte loads the byte. -/
theorem load_bits_byte (w : Nat) (byte : UInt8) :
    loadBits w (byteBits byte) = byte.toBitVec.setWidth w := by
  apply BitVec.eq_of_getLsbD_eq
  intro i hi
  rw [load_bits_get, BitVec.getLsbD_setWidth]
  by_cases hlow : i < 8
  · simp [byteBits, hlow]
  · simp [byteBits, Nat.not_lt.mp hlow]

/-- A byte that is combined with the low end of a register enters it bit by bit. -/
theorem crc_feed_byte (poly x : BitVec w) (hw : 8 ≤ w) (byte : UInt8) :
    crcFeed poly x (byteBits byte) = (crcStep poly)^[8] (x ^^^ byte.toBitVec.setWidth w) := by
  rw [crc_feed_load _ _ (by simpa using hw), byte_bits_length, load_bits_byte]

end LatentMesh.Lib
