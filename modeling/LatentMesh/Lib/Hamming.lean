import Mathlib.Data.List.Basic

/-!
# Hamming distance of bit strings

The weight of a bit string, the distance of two of them, and flipping the bits under a mask.
-/

namespace LatentMesh.Lib

/-- The number of ones in a bit string. -/
def weight (bits : List Bool) : Nat := bits.count true

/-- The number of positions where two bit strings differ. -/
def distance (left right : List Bool) : Nat := weight (left.zipWith (· ^^ ·) right)

/-- Flip the bits under the ones of a mask. -/
def flipBits (bits mask : List Bool) : List Bool := bits.zipWith (· ^^ ·) mask

@[simp] theorem weight_nil : weight [] = 0 := rfl

@[simp] theorem weight_cons (bit : Bool) (bits : List Bool) :
    weight (bit :: bits) = bit.toNat + weight bits := by
  cases bit <;> simp [weight, Nat.add_comm]

@[simp] theorem distance_nil : distance [] [] = 0 := rfl

@[simp] theorem distance_cons (a b : Bool) (left right : List Bool) :
    distance (a :: left) (b :: right) = (a ^^ b).toNat + distance left right := by
  simp [distance]

/-- The triangle inequality for words of one length. -/
theorem distance_triangle {first second third : List Bool} (h : first.length = second.length)
    (h' : second.length = third.length) :
    distance first third ≤ distance first second + distance second third := by
  induction first generalizing second third with
  | nil =>
      obtain rfl := List.eq_nil_of_length_eq_zero h.symm
      obtain rfl := List.eq_nil_of_length_eq_zero h'.symm
      simp
  | cons a first ih =>
      obtain ⟨b, second, rfl⟩ := List.exists_cons_of_length_eq_add_one h.symm
      obtain ⟨c, third, rfl⟩ := List.exists_cons_of_length_eq_add_one h'.symm
      have hrest := ih (by simpa using h) (by simpa using h')
      have hhead : (a ^^ c).toNat ≤ (a ^^ b).toNat + (b ^^ c).toNat := by
        cases a <;> cases b <;> cases c <;> decide
      simp only [distance_cons]
      omega

/-- The distance is symmetric. -/
theorem distance_comm (left right : List Bool) : distance left right = distance right left := by
  rw [distance, distance, List.zipWith_comm]
  simp only [Bool.xor_comm]

/-- A permutation keeps the weight. -/
theorem weight_perm {left right : List Bool} (h : left.Perm right) : weight left = weight right :=
  h.count_eq true

/-- Flipping bits keeps the length, as far as the mask reaches. -/
@[simp] theorem flip_bits_length (bits mask : List Bool) :
    (flipBits bits mask).length = min bits.length mask.length := List.length_zipWith

/-- Flipping moves a bit string by the weight of the mask. -/
theorem distance_flip_bits {bits mask : List Bool} (h : bits.length = mask.length) :
    distance (flipBits bits mask) bits = weight mask := by
  induction bits generalizing mask with
  | nil =>
      obtain rfl := List.eq_nil_of_length_eq_zero h.symm
      rfl
  | cons bit bits ih =>
      obtain ⟨flip, mask, rfl⟩ := List.exists_cons_of_length_eq_add_one h.symm
      have hhead : ((bit ^^ flip) ^^ bit) = flip := by cases bit <;> cases flip <;> rfl
      have hrest := ih (by simpa using h)
      rw [flipBits] at hrest ⊢
      rw [List.zipWith_cons_cons, distance_cons, weight_cons, hhead, hrest]

end LatentMesh.Lib
