import Mathlib.Data.List.Induction
import LatentMesh.Lib.Transition
import LatentMesh.Esp32.Policy

/-!
# Identification on the air

Runs of `lm_air_policy_allow_packet` from a zeroed runtime state. What it allows has passed the
static check, and what it allows that is not an identification follows an allowed identification
within the interval (`TxHistory.run_allowed`). The invariant is about what was sent, so that it
serves for a sender that drops packets which the policy has allowed.
-/

namespace LatentMesh.Esp32

/-- A packet that is to be transmitted at a time. -/
structure TxRequest where
  packet : LmAirPacket
  nowMs : UInt64
  deriving DecidableEq, Repr

/-- The packet is flagged as identification and contains the call sign, in upper or lower case. -/
def Identifies (policy : LmAirTxPolicy) (packet : LmAirPacket) : Prop :=
  packet.flags &&& lmAirPayloadIdentification ≠ 0 ∧ ContainsCallsign packet.data policy.callsign

/-- An earlier identification is within the interval. -/
def IdentifiedWithin (policy : LmAirTxPolicy) (earlier : List TxRequest) (request : TxRequest) :
    Prop :=
  ∃ id ∈ earlier, Identifies policy id.packet ∧ id.nowMs ≤ request.nowMs ∧
    request.nowMs.toNat - id.nowMs.toNat < policy.callsignIntervalMs.toNat

/-- Everything sent is an identification or has one before it within the interval. -/
def Identified (policy : LmAirTxPolicy) (sent : List TxRequest) : Prop :=
  ∀ earlier request later, sent = earlier ++ request :: later →
    ¬ Identifies policy request.packet → IdentifiedWithin policy earlier request

section Policy

variable {policy : LmAirTxPolicy} {runtime : LmAirTxPolicyRuntime} {packet : LmAirPacket}
  {nowMs : UInt64} {flags : UInt8} {sent : List TxRequest} {request : TxRequest}

/-- The static check asks for a valid call sign. -/
theorem callsign_valid_of_check (h : lmAirPolicyCheck policy flags = .ok ()) :
    lmAirCallsignValid policy.callsign = true := by
  unfold lmAirPolicyCheck at h
  by_contra hinvalid
  rw [if_pos hinvalid] at h
  split_ifs at h

/-- A packet that the policy accepts counts as identification when it identifies the station. -/
theorem identification_iff (h : lmAirPolicyCheck policy flags = .ok ()) :
    identification policy packet = true ↔ Identifies policy packet := by
  unfold identification Identifies
  rw [Bool.and_eq_true, packet_contains_callsign_iff, and_iff_right (callsign_valid_of_check h),
    decide_eq_true_iff]

/-- A denied packet leaves the runtime state as it is. -/
theorem runtime_of_denied {reason : String}
    (h : (lmAirPolicyAllowPacket policy runtime packet nowMs).2 = .error reason) :
    (lmAirPolicyAllowPacket policy runtime packet nowMs).1 = runtime := by
  rcases allow_packet_cases policy runtime packet nowMs with
    ⟨_, hallow⟩ | ⟨-, -, hallow⟩ | ⟨-, -, -, hallow⟩
  · rw [hallow]
  · rw [hallow] at h
    cases h
  · rw [hallow]

/-- The invariant: what was sent obeys the law, and the clock was last started by an identification
that was sent. -/
structure Covered (policy : LmAirTxPolicy) (runtime : LmAirTxPolicyRuntime)
    (sent : List TxRequest) : Prop where
  checked : ∀ request ∈ sent, lmAirPolicyCheck policy request.packet.flags = .ok ()
  identified : Identified policy sent
  clock : runtime.identificationSeen = true →
    ∃ id ∈ sent, Identifies policy id.packet ∧ id.nowMs = runtime.lastIdentificationMs

/-- Before the first packet there is nothing to cover. -/
theorem Covered.zero (policy : LmAirTxPolicy) : Covered policy .zero [] where
  checked := fun _ hmem => absurd hmem List.not_mem_nil
  identified := Lib.forall_split_nil
  clock := fun h => by cases h

/-- While no identification is due an identification was sent within the interval. -/
theorem Covered.within (h : Covered policy runtime sent)
    (hlater : ∀ earlier ∈ sent, earlier.nowMs ≤ request.nowMs)
    (hdue : identificationDue policy runtime request.nowMs = false) :
    IdentifiedWithin policy sent request := by
  obtain ⟨hseen, hinterval⟩ := not_due_iff.mp hdue
  obtain ⟨id, hmem, hid, hclock⟩ := h.clock hseen
  have hle := hlater id hmem
  rw [← hclock, UInt64.toNat_sub_of_le _ _ hle] at hinterval
  exact ⟨id, hmem, hid, hle, hinterval⟩

/-- A packet that identifies, or follows an identification in time, keeps the station identified. -/
theorem Identified.concat (h : Identified policy sent)
    (hlast : ¬ Identifies policy request.packet → IdentifiedWithin policy sent request) :
    Identified policy (sent ++ [request]) :=
  Lib.forall_split_concat.mpr ⟨h, hlast⟩

/-- A packet that the policy allows may be sent. -/
theorem Covered.send (h : Covered policy runtime sent)
    (hlater : ∀ earlier ∈ sent, earlier.nowMs ≤ request.nowMs)
    (hallow : (lmAirPolicyAllowPacket policy runtime request.packet request.nowMs).2 = .ok ()) :
    Covered policy (lmAirPolicyAllowPacket policy runtime request.packet request.nowMs).1
      (sent ++ [request]) := by
  have hchecked (hcheck : lmAirPolicyCheck policy request.packet.flags = .ok ()) :
      ∀ other ∈ sent ++ [request], lmAirPolicyCheck policy other.packet.flags = .ok () := by
    intro other hmem
    rcases List.mem_append.mp hmem with hold | hnew
    · exact h.checked other hold
    · rw [List.mem_singleton.mp hnew]
      exact hcheck
  rcases allow_packet_cases policy runtime request.packet request.nowMs with
    ⟨_, hdenied⟩ | ⟨hcheck, hid, hcase⟩ | ⟨hcheck, -, hdue, hcase⟩
  · rw [hdenied] at hallow
    cases hallow
  · rw [hcase]
    have hidentifies := (identification_iff hcheck).mp hid
    refine ⟨hchecked hcheck, h.identified.concat fun hnot => absurd hidentifies hnot, ?_⟩
    intro _
    exact ⟨request, List.mem_append_right _ (List.mem_singleton.mpr rfl), hidentifies, rfl⟩
  · rw [hcase]
    refine ⟨hchecked hcheck, h.identified.concat fun _ => h.within hlater hdue, ?_⟩
    intro hseen
    obtain ⟨id, hmem, hid⟩ := h.clock hseen
    exact ⟨id, List.mem_append_left _ hmem, hid⟩

end Policy

/-- The state of the policy and the packets that it has allowed. -/
structure TxHistory where
  runtime : LmAirTxPolicyRuntime
  allowed : List TxRequest
  deriving DecidableEq, Repr

namespace TxHistory

/-- A request, kept when it is allowed. -/
def step (policy : LmAirTxPolicy) (self : TxHistory) (request : TxRequest) : TxHistory :=
  match lmAirPolicyAllowPacket policy self.runtime request.packet request.nowMs with
  | (runtime, .ok ()) => ⟨runtime, self.allowed ++ [request]⟩
  | (runtime, .error _) => { self with runtime }

/-- The history of some requests. -/
def run (policy : LmAirTxPolicy) (requests : List TxRequest) : TxHistory :=
  requests.foldl (step policy) ⟨.zero, []⟩

/-- The law of a run. -/
structure Law (policy : LmAirTxPolicy) (history : TxHistory) : Prop where
  checked : ∀ request ∈ history.allowed,
    lmAirPolicyCheck policy request.packet.flags = .ok ()
  identified : Identified policy history.allowed
  denied : ∀ (request : TxRequest) (reason : String),
    (lmAirPolicyAllowPacket policy history.runtime request.packet request.nowMs).2 =
        .error reason →
      (lmAirPolicyAllowPacket policy history.runtime request.packet request.nowMs).1 =
        history.runtime

variable {policy : LmAirTxPolicy} {history : TxHistory} {request : TxRequest}
  {requests : List TxRequest}

/-- A denied request changes nothing. -/
theorem step_denied {reason : String}
    (h : (lmAirPolicyAllowPacket policy history.runtime request.packet request.nowMs).2 =
      .error reason) : history.step policy request = history := by
  have hruntime := runtime_of_denied h
  unfold step
  cases hallow : lmAirPolicyAllowPacket policy history.runtime request.packet request.nowMs with
  | mk runtime result =>
      rw [hallow] at h hruntime
      cases h
      cases hruntime
      rfl

/-- An allowed request is kept. -/
theorem step_allowed
    (h : (lmAirPolicyAllowPacket policy history.runtime request.packet request.nowMs).2 =
      .ok ()) :
    history.step policy request =
      ⟨(lmAirPolicyAllowPacket policy history.runtime request.packet request.nowMs).1,
        history.allowed ++ [request]⟩ := by
  unfold step
  cases hallow : lmAirPolicyAllowPacket policy history.runtime request.packet request.nowMs with
  | mk runtime result =>
      rw [hallow] at h
      cases h
      rfl

/-- A request keeps the clock of the policy covered by the history. -/
theorem step_covered (h : Covered policy history.runtime history.allowed)
    (hlater : ∀ earlier ∈ history.allowed, earlier.nowMs ≤ request.nowMs) :
    Covered policy (history.step policy request).runtime
      (history.step policy request).allowed := by
  cases hresult :
      (lmAirPolicyAllowPacket policy history.runtime request.packet request.nowMs).2 with
  | error reason =>
      rw [step_denied hresult]
      exact h
  | ok _ =>
      rw [step_allowed hresult]
      exact h.send hlater hresult

/-- A request adds itself at most. -/
theorem step_subset (request : TxRequest) :
    (history.step policy request).allowed ⊆ history.allowed ++ [request] := by
  cases hresult :
      (lmAirPolicyAllowPacket policy history.runtime request.packet request.nowMs).2 with
  | error reason =>
      rw [step_denied hresult]
      exact List.subset_append_left _ _
  | ok _ =>
      rw [step_allowed hresult]
      exact List.Subset.refl _

/-- One request more. -/
theorem run_concat (policy : LmAirTxPolicy) (requests : List TxRequest) (request : TxRequest) :
    run policy (requests ++ [request]) = (run policy requests).step policy request :=
  List.foldl_append

/-- Only packets of the run are allowed. -/
theorem run_subset (policy : LmAirTxPolicy) (requests : List TxRequest) :
    (run policy requests).allowed ⊆ requests := by
  have h := @Lib.foldl_subset _ _ _ (step policy) allowed id requests ⟨.zero, []⟩
    fun request _ _ => step_subset request
  rwa [List.map_id] at h

/-- The invariant over a run whose clock does not go back. -/
theorem run_covered (htimes : requests.Pairwise fun first second => first.nowMs ≤ second.nowMs) :
    Covered policy (run policy requests).runtime (run policy requests).allowed := by
  induction requests using List.reverseRecOn with
  | nil => exact Covered.zero policy
  | append_singleton requests request ih =>
      obtain ⟨hbefore, -, hlast⟩ := List.pairwise_append.mp htimes
      rw [run_concat]
      refine step_covered (ih hbefore) fun earlier hmem => ?_
      exact hlast earlier (run_subset policy requests hmem) request (List.mem_singleton.mpr rfl)

/-- The law holds in every run whose clock does not go back. -/
theorem run_allowed (policy : LmAirTxPolicy) (requests : List TxRequest)
    (htimes : requests.Pairwise fun first second => first.nowMs ≤ second.nowMs) :
    Law policy (run policy requests) where
  checked := (run_covered htimes).checked
  identified := (run_covered htimes).identified
  denied := fun _ _ => runtime_of_denied

/-- A station in Canada with the call sign `VE3LM` and an interval of ten minutes. -/
def samplePolicy : LmAirTxPolicy where
  externalRfTxEnabled := true
  operatorAttested := true
  hardwareInterlockAsserted := true
  jurisdiction := .canada
  callsignIntervalMs := 600000
  callsign := [0x56, 0x45, 0x33, 0x4c, 0x4d]

/-- An identification in lower case, a packet before the end of the interval, and one at its end. -/
def sampleRequests : List TxRequest :=
  [⟨⟨[0x76, 0x65, 0x33, 0x6c, 0x6d], 0, 0x03⟩, 1000⟩, ⟨⟨[0x2a], 0, 0x01⟩, 600999⟩,
    ⟨⟨[0x2a], 0, 0x01⟩, 601000⟩]

/-- The theorem at three requests. -/
theorem run_allowed_sample :
    (run samplePolicy sampleRequests).allowed = sampleRequests.take 2 ∧
      Law samplePolicy (run samplePolicy sampleRequests) :=
  ⟨by decide, run_allowed samplePolicy sampleRequests (by decide)⟩

end TxHistory

end LatentMesh.Esp32
