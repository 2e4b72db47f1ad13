import Mathlib.Data.List.GetD
import LatentMesh.Esp32.Packet

/-!
# The transmit policy

`lm_air_policy.c`: the static check of a packet, the search for the call sign in it, and the timer
of the identification. The search finds the call sign in upper or lower case
(`packet_contains_callsign_iff`).
-/

namespace LatentMesh.Esp32

/-- `lm_air_jurisdiction_t`. -/
inductive LmAirJurisdiction where
  | canada
  | us
  | other
  deriving DecidableEq, Repr

/-- `lm_air_tx_policy_t`. The call sign is without the byte that ends the string. -/
structure LmAirTxPolicy where
  externalRfTxEnabled : Bool
  operatorAttested : Bool
  hardwareInterlockAsserted : Bool
  jurisdiction : LmAirJurisdiction
  callsignIntervalMs : UInt32
  callsign : List UInt8
  deriving DecidableEq, Repr

/-- `lm_air_tx_policy_runtime_t`. -/
structure LmAirTxPolicyRuntime where
  lastIdentificationMs : UInt64
  identificationSeen : Bool
  deriving DecidableEq, Repr

/-- `{0}`. -/
def LmAirTxPolicyRuntime.zero : LmAirTxPolicyRuntime := ⟨0, false⟩

/-! ## Characters of the C locale -/

/-- `isupper` in the C locale. -/
def isupper (c : UInt8) : Bool := 0x41 ≤ c && c ≤ 0x5a

/-- `islower` in the C locale. -/
def islower (c : UInt8) : Bool := 0x61 ≤ c && c ≤ 0x7a

/-- `isalpha` in the C locale. -/
def isalpha (c : UInt8) : Bool := isupper c || islower c

/-- `isdigit` in the C locale. -/
def isdigit (c : UInt8) : Bool := 0x30 ≤ c && c ≤ 0x39

/-- `toupper` in the C locale. -/
def toupper (c : UInt8) : UInt8 := if islower c then c - 0x20 else c

/-! ## The call sign -/

/-- 3 to 16 letters, digits and slashes, with a letter and a digit. -/
def lmAirCallsignValid (callsign : List UInt8) : Bool :=
  if callsign.length < 3 ∨ 16 < callsign.length then false
  else if callsign.any fun c => ¬ isalpha c ∧ ¬ isdigit c ∧ c ≠ 0x2f then false
  else callsign.any isalpha && callsign.any isdigit

/-- The inner loop: the call sign stands at a position of the data. -/
def callsignAt (data callsign : List UInt8) (i : Nat) : Bool :=
  (List.range callsign.length).all fun j =>
    toupper (data.getD (i + j) 0) = toupper (callsign.getD j 0)

/-- `lm_air_packet_contains_callsign`. -/
def lmAirPacketContainsCallsign (packet : LmAirPacket) (callsign : List UInt8) : Bool :=
  if ¬ lmAirCallsignValid callsign then false
  else if packet.data.length < callsign.length then false
  else (List.range (packet.data.length - callsign.length + 1)).any fun i =>
    callsignAt packet.data callsign i

/-- The data contains the call sign in upper or lower case. -/
def ContainsCallsign (data callsign : List UInt8) : Prop :=
  callsign.map toupper <:+: data.map toupper

/-- The data contains the call sign at some position. -/
theorem contains_callsign_iff {data callsign : List UInt8} :
    ContainsCallsign data callsign ↔
      ∃ i, i + callsign.length ≤ data.length ∧ callsignAt data callsign i = true := by
  unfold ContainsCallsign
  rw [List.infix_iff_getElem?]
  refine exists_congr fun i => ?_
  simp only [List.length_map, Nat.add_comm callsign.length]
  refine and_congr_right fun hfits => ?_
  rw [callsignAt, List.all_eq_true]
  constructor
  · intro h j hmem
    have hj := List.mem_range.mp hmem
    have hdata : i + j < data.length := by omega
    have hbyte := h j hj
    rw [Nat.add_comm, List.getElem?_map, List.getElem?_eq_getElem hdata, Option.map_some,
      List.getElem_map] at hbyte
    rw [List.getD_eq_getElem _ _ hdata, List.getD_eq_getElem _ _ hj]
    exact decide_eq_true (Option.some.inj hbyte)
  · intro h j hj
    have hdata : i + j < data.length := by omega
    have hbyte := of_decide_eq_true (h j (List.mem_range.mpr hj))
    rw [List.getD_eq_getElem _ _ hdata, List.getD_eq_getElem _ _ hj] at hbyte
    rw [Nat.add_comm, List.getElem?_map, List.getElem?_eq_getElem hdata, Option.map_some, hbyte,
      List.getElem_map]

/-- The search finds a valid call sign wherever it is. -/
theorem packet_contains_callsign_iff {packet : LmAirPacket} {callsign : List UInt8} :
    lmAirPacketContainsCallsign packet callsign = true ↔
      lmAirCallsignValid callsign = true ∧ ContainsCallsign packet.data callsign := by
  unfold lmAirPacketContainsCallsign
  rw [contains_callsign_iff]
  split
  · rename_i hvalid
    exact iff_of_false (fun h => by cases h) fun h => hvalid h.1
  · rename_i hvalid
    rw [and_iff_right (not_not.mp hvalid)]
    split
    · rename_i hshort
      refine iff_of_false (fun h => by cases h) ?_
      rintro ⟨k, hfits, -⟩
      omega
    · rename_i hlong
      rw [List.any_eq_true]
      refine exists_congr fun i => and_congr_left fun _ => ?_
      rw [List.mem_range]
      omega

/-! ## The policy -/

/-- `lm_air_policy_check`, with the reason that it writes when it fails. -/
def lmAirPolicyCheck (policy : LmAirTxPolicy) (payloadFlags : UInt8) : Except String Unit :=
  if ¬ policy.externalRfTxEnabled then .error "external RF TX disabled at build time"
  else if ¬ policy.operatorAttested then .error "operator attestation missing"
  else if ¬ policy.hardwareInterlockAsserted then .error "hardware TX interlock is open"
  else if ¬ lmAirCallsignValid policy.callsign then
    .error "assigned call sign missing or invalid"
  else if payloadFlags &&& lmAirPayloadPublicCodec = 0 then
    .error "publicly documented codec flag required"
  else if payloadFlags &&& lmAirPayloadEncrypted ≠ 0 ∧
      (policy.jurisdiction = .canada ∨ policy.jurisdiction = .us) then
    .error "obscured payload blocked for CA/US amateur profile"
  else .ok ()

/-- The packet is flagged as identification and contains the call sign. -/
def identification (policy : LmAirTxPolicy) (packet : LmAirPacket) : Bool :=
  packet.flags &&& lmAirPayloadIdentification ≠ 0 &&
    lmAirPacketContainsCallsign packet policy.callsign

/-- The time since the last identification has reached the interval, or there was none. -/
def identificationDue (policy : LmAirTxPolicy) (runtime : LmAirTxPolicyRuntime) (nowMs : UInt64) :
    Bool :=
  !runtime.identificationSeen ||
    policy.callsignIntervalMs.toUInt64 ≤ nowMs - runtime.lastIdentificationMs

/-- `lm_air_policy_allow_packet`. -/
def lmAirPolicyAllowPacket (policy : LmAirTxPolicy) (runtime : LmAirTxPolicyRuntime)
    (packet : LmAirPacket) (nowMs : UInt64) : LmAirTxPolicyRuntime × Except String Unit :=
  match lmAirPolicyCheck policy packet.flags with
  | .error reason => (runtime, .error reason)
  | .ok () =>
      if identificationDue policy runtime nowMs ∧ ¬ identification policy packet then
        (runtime, .error "clear call-sign identification is due")
      else if identification policy packet then (⟨nowMs, true⟩, .ok ())
      else (runtime, .ok ())

variable {policy : LmAirTxPolicy} {runtime : LmAirTxPolicyRuntime} {packet : LmAirPacket}
  {nowMs : UInt64}

/-- What the policy does: it denies the packet and changes nothing, it allows an identification and
starts the clock again, or it allows another packet while no identification is due. -/
theorem allow_packet_cases (policy : LmAirTxPolicy) (runtime : LmAirTxPolicyRuntime)
    (packet : LmAirPacket) (nowMs : UInt64) :
    (∃ reason, lmAirPolicyAllowPacket policy runtime packet nowMs = (runtime, .error reason)) ∨
      (lmAirPolicyCheck policy packet.flags = .ok () ∧ identification policy packet = true ∧
        lmAirPolicyAllowPacket policy runtime packet nowMs = (⟨nowMs, true⟩, .ok ())) ∨
      (lmAirPolicyCheck policy packet.flags = .ok () ∧ identification policy packet = false ∧
        identificationDue policy runtime nowMs = false ∧
        lmAirPolicyAllowPacket policy runtime packet nowMs = (runtime, .ok ())) := by
  unfold lmAirPolicyAllowPacket
  cases hcheck : lmAirPolicyCheck policy packet.flags with
  | error reason => exact Or.inl ⟨reason, rfl⟩
  | ok _ =>
      dsimp only
      cases hid : identification policy packet with
      | true =>
          rw [if_neg (by simp), if_pos rfl]
          exact Or.inr (Or.inl ⟨rfl, rfl, rfl⟩)
      | false =>
          cases hdue : identificationDue policy runtime nowMs with
          | true =>
              rw [if_pos (by simp)]
              exact Or.inl ⟨_, rfl⟩
          | false =>
              rw [if_neg (by simp), if_neg (by simp)]
              exact Or.inr (Or.inr ⟨rfl, rfl, rfl, rfl⟩)

/-- While no identification is due the last one is within the interval. -/
theorem not_due_iff : identificationDue policy runtime nowMs = false ↔
    runtime.identificationSeen = true ∧
      (nowMs - runtime.lastIdentificationMs).toNat < policy.callsignIntervalMs.toNat := by
  unfold identificationDue
  rw [Bool.or_eq_false_iff, Bool.not_eq_false', decide_eq_false_iff_not, UInt64.le_iff_toNat_le,
    UInt32.toNat_toUInt64, Nat.not_le]

end LatentMesh.Esp32
