import LatentMesh.AirCore.SemanticReplay

/-!
# The input of the critical hash

The fields of a state stand in the hash input as the updates that set them would stand in an encoded
delta, so they are read back from it and two states with one input are equal. A delta is then
accepted on no other state than its base, unless the two collide: see `critical_hash_pins_state`.
-/

namespace LatentMesh.AirCore

open LatentMesh.Lib

namespace CriticalState

variable {first second : CriticalState}

/-- The updates that set the fields of a state. -/
def asUpdates (self : CriticalState) : List SymbolUpdate :=
  self.fields.entries.map fun entry => .set entry.1 entry.2

/-- The bytes that are hashed are those of the updates that make the state. -/
theorem hash_input_eq (self : CriticalState) :
    self.hashInput = hashDomain ++ u16Be (UInt16.ofNat self.fields.size) ++
      self.asUpdates.flatMap SemanticDelta.encodeUpdate := by
  rw [hashInput, asUpdates, List.flatMap_map]
  congr 2

/-- The fields are read back. -/
theorem read_as_updates (self : CriticalState) :
    SemanticDelta.readUpdates self.fields.size none
      (self.asUpdates.flatMap SemanticDelta.encodeUpdate) = .ok (self.asUpdates, []) := by
  have hsorted : (self.asUpdates.map SymbolUpdate.fieldId).Pairwise (· < ·) := by
    rw [asUpdates, List.map_map, List.pairwise_map]
    exact self.fields.sorted
  have hvalues : ∀ fieldId value, .set fieldId value ∈ self.asUpdates →
      value.validate = .ok () := by
    intro fieldId value hmem
    obtain ⟨entry, hentry, heq⟩ := List.mem_map.mp hmem
    cases heq
    exact self.valid entry hentry
  have hread := SemanticDelta.read_updates_encode none [] hsorted
    (fun field hfield => by cases hfield) hvalues
  rwa [List.append_nil, asUpdates, List.length_map] at hread

/-- Two states with the same hash input are equal. -/
theorem hash_input_injective (h : first.hashInput = second.hashInput) : first = second := by
  rw [hash_input_eq, hash_input_eq, List.append_assoc, List.append_assoc,
    List.append_cancel_left_eq] at h
  obtain ⟨hcount, hfields⟩ := List.append_inj h (by rw [u16_be_length, u16_be_length])
  have hsize : first.fields.size = second.fields.size := by
    have hfirst := first.bounded.trans_lt (by decide : maxCriticalFields < 2 ^ 16)
    have hsecond := second.bounded.trans_lt (by decide : maxCriticalFields < 2 ^ 16)
    have hread := congrArg (fun bytes => (u16OfBe bytes).toNat) hcount
    simp only [u16_of_be_u16_be] at hread
    rwa [UInt16.toNat_ofNat_of_lt' hfirst, UInt16.toNat_ofNat_of_lt' hsecond] at hread
  have hread := first.read_as_updates
  rw [hfields, hsize, second.read_as_updates] at hread
  have hupdates : second.asUpdates = first.asUpdates := congrArg Prod.fst (Except.ok.inj hread)
  have hentries : second.fields.entries = first.fields.entries := by
    refine List.map_injective_iff.mpr (fun left right heq => ?_) hupdates
    injection heq with hfield hvalue
    exact Prod.ext hfield hvalue
  obtain ⟨⟨entries, hsorted⟩, hbounded, hvalid⟩ := first
  obtain ⟨⟨entries', hsorted'⟩, hbounded', hvalid'⟩ := second
  obtain rfl := hentries
  rfl

end CriticalState

namespace SemanticDelta

variable {sha256 : List UInt8 → Vector UInt8 32} {sourceId epoch messageId : UInt32}
  {before after base result : CriticalState} {residuals : List Residual} {delta : SemanticDelta}

/-- The two states do not collide: their hash inputs are equal if the 16 bytes kept of the digests
are. -/
def CollisionFree (sha256 : List UInt8 → Vector UInt8 32) (first second : CriticalState) : Prop :=
  first.criticalHash sha256 = second.criticalHash sha256 → first.hashInput = second.hashInput

/-- A delta is only applied to a state with its base hash. -/
theorem apply_checks_base (h : delta.apply sha256 base = .ok result) :
    base.criticalHash sha256 = delta.baseHash := by
  obtain ⟨u, -, happly⟩ := Lib.bind_eq_ok_iff.mp h
  exact not_not.mp (Lib.guard_eq_ok_iff.mp happly).1

/-- A delta with the base hash of a state is accepted on that state only. -/
theorem base_of_apply (hbase : delta.baseHash = before.criticalHash sha256)
    (hfree : CollisionFree sha256 base before) (h : delta.apply sha256 base = .ok result) :
    base = before :=
  CriticalState.hash_input_injective (hfree ((apply_checks_base h).trans hbase))

/-- The hash input determines the state. A delta, and the one read back from its bytes, is accepted
on no other state than the one that it was computed from, if the two do not collide. -/
theorem critical_hash_pins_state :
    (∀ first second : CriticalState, first.hashInput = second.hashInput → first = second) ∧
    ∀ (sha256 : List UInt8 → Vector UInt8 32) (sourceId epoch messageId : UInt32)
      (before after base : CriticalState) (residuals : List Residual) (delta : SemanticDelta),
      between sha256 sourceId epoch messageId before after residuals = .ok delta →
      CollisionFree sha256 base before →
      (∀ result, delta.apply sha256 base = .ok result → base = before) ∧
      ∀ bytes decoded, delta.encode = .ok bytes → decode bytes = .ok decoded →
        ∀ result, decoded.apply sha256 base = .ok result → base = before := by
  refine ⟨fun first second => CriticalState.hash_input_injective, ?_⟩
  intro sha256 sourceId epoch messageId before after base residuals delta hbetween hfree
  obtain ⟨-, hbase, -⟩ := between_eq_ok hbetween
  refine ⟨fun result happly => base_of_apply hbase hfree happly, ?_⟩
  intro bytes decoded hencode hdecode result happly
  obtain rfl := Except.ok.inj ((decode_encode hencode).symm.trans hdecode)
  -- the canonical form has the same base hash
  have hcanonical : delta.canonical.baseHash = before.criticalHash sha256 := hbase
  exact base_of_apply hcanonical hfree happly

/-- The delta from the state with a flag is not accepted on the state that it leads to. -/
theorem critical_hash_pins_state_sample :
    ∃ delta, between sampleSha256 7 3 99 sampleBefore sampleAfter [] = .ok delta ∧
      ∀ result, delta.apply sampleSha256 sampleAfter ≠ .ok result := by
  obtain ⟨delta, hdelta⟩ :
      ∃ delta, between sampleSha256 7 3 99 sampleBefore sampleAfter [] = .ok delta := ⟨_, rfl⟩
  refine ⟨delta, hdelta, fun result happly => ?_⟩
  have hdifferent :
      sampleAfter.criticalHash sampleSha256 ≠ sampleBefore.criticalHash sampleSha256 := by
    decide
  obtain ⟨hbase, -⟩ := critical_hash_pins_state.2 sampleSha256 7 3 99 sampleBefore sampleAfter
    sampleAfter [] delta hdelta fun hsame => absurd hsame hdifferent
  have hfields := congrArg (fun state => state.fields.size) (hbase result happly)
  exact absurd hfields (by decide)

end SemanticDelta

end LatentMesh.AirCore
