import LatentMesh.Esp32.Identification
import LatentMesh.Esp32.Kiss

/-!
# The KISS transmit loop

`kiss_tx_task` of `lm_air_kiss_uart.c`: the policy, the encoder and the write to the UART, which may
write less than it was asked to. The policy starts its clock before the write, so a dropped
identification counts as one that was on the air (`KissTxTask.unidentified_after_short_write`).
While no identification is dropped the loop identifies itself
(`KissTxTask.run_identified`).
-/

namespace LatentMesh.Esp32

/-- A packet of the transmit queue, the time when it is taken from the queue, and what
`uart_write_bytes` returns for it. -/
structure KissTxInput where
  packet : LmAirPacket
  nowMs : UInt64
  written : Int
  deriving DecidableEq, Repr

/-- How a turn of the loop ends, under the name of the metric that it adds to. -/
inductive KissTxOutcome where
  | policyBlock (reason : String)
  | queueDrop
  | kissTx (encoded : List UInt8)
  deriving DecidableEq, Repr

/-- The size of the buffer `encoded`. -/
def kissTxCapacity : Nat := 2 * lmAirMaxFrameSize + 3

/-- One turn of the loop. -/
def kissTxTurn (policy : LmAirTxPolicy) (runtime : LmAirTxPolicyRuntime) (input : KissTxInput) :
    LmAirTxPolicyRuntime × KissTxOutcome :=
  match lmAirPolicyAllowPacket policy runtime input.packet input.nowMs with
  | (runtime, .error reason) => (runtime, .policyBlock reason)
  | (runtime, .ok ()) =>
      match lmKissEncode 0 input.packet.data kissTxCapacity with
      | none => (runtime, .queueDrop)
      | some encoded =>
          if input.written ≠ encoded.length then (runtime, .queueDrop)
          else (runtime, .kissTx encoded)

/-- A packet has 1 to 512 bytes. -/
def KissTxInput.Sized (input : KissTxInput) : Prop :=
  1 ≤ input.packet.data.length ∧ input.packet.data.length ≤ lmAirMaxFrameSize

instance (input : KissTxInput) : Decidable input.Sized :=
  inferInstanceAs (Decidable (_ ∧ _))

/-- The whole frame is written to the UART. -/
def KissTxInput.WrittenCompletely (input : KissTxInput) : Prop :=
  input.written = (kissFrame 0 input.packet.data).length

instance (input : KissTxInput) : Decidable input.WrittenCompletely :=
  inferInstanceAs (Decidable (_ = _))

/-- An identification that the static check lets through is written completely. -/
def KissTxInput.IdentificationWritten (policy : LmAirTxPolicy) (input : KissTxInput) : Prop :=
  lmAirPolicyCheck policy input.packet.flags = .ok () →
    identification policy input.packet = true → input.WrittenCompletely

instance (policy : LmAirTxPolicy) (input : KissTxInput) :
    Decidable (input.IdentificationWritten policy) :=
  inferInstanceAs (Decidable (_ → _))

/-- The request for the packet of an input. -/
def KissTxInput.request (input : KissTxInput) : TxRequest := ⟨input.packet, input.nowMs⟩

/-- The buffer has room for every packet: the command of port 0 is one byte. -/
theorem kiss_tx_encode {input : KissTxInput} (hsized : input.Sized) :
    lmKissEncode 0 input.packet.data kissTxCapacity = some (kissFrame 0 input.packet.data) := by
  obtain ⟨hmin, hmax⟩ := hsized
  have hbytes := (flat_map_escape_length input.packet.data).2
  refine kiss_encode_eq_some_iff.mpr ⟨by decide, List.length_pos_iff.mp hmin, rfl, ?_⟩
  have hcommand : (escape ((0 : UInt8) <<< 4)).length = 1 := by decide
  rw [kiss_frame_length, kissTxCapacity, hcommand]
  omega

/-- The state of the policy and the packets that were written completely. -/
structure KissTxTask where
  runtime : LmAirTxPolicyRuntime
  written : List TxRequest
  deriving DecidableEq, Repr

namespace KissTxTask

/-- An input: its packet is asked for, and written if it is allowed. -/
def step (policy : LmAirTxPolicy) (self : KissTxTask) (input : KissTxInput) : KissTxTask :=
  match kissTxTurn policy self.runtime input with
  | (runtime, .kissTx _) => ⟨runtime, self.written ++ [input.request]⟩
  | (runtime, _) => { self with runtime }

/-- The task after some inputs. -/
def run (policy : LmAirTxPolicy) (inputs : List KissTxInput) : KissTxTask :=
  inputs.foldl (step policy) ⟨.zero, []⟩

variable {policy : LmAirTxPolicy} {task : KissTxTask} {input : KissTxInput}
  {inputs : List KissTxInput}

/-- What a turn does: the policy blocks the packet, or it allows the packet and the packet is
dropped or written. -/
theorem step_cases (policy : LmAirTxPolicy) (task : KissTxTask) (hsized : input.Sized) :
    task.step policy input = task ∨
      (lmAirPolicyAllowPacket policy task.runtime input.packet input.nowMs).2 = .ok () ∧
        task.step policy input =
          ⟨(lmAirPolicyAllowPacket policy task.runtime input.packet input.nowMs).1,
            if input.WrittenCompletely then task.written ++ [input.request]
            else task.written⟩ := by
  unfold step kissTxTurn
  rw [kiss_tx_encode hsized]
  cases hallow : lmAirPolicyAllowPacket policy task.runtime input.packet input.nowMs with
  | mk runtime result =>
      cases result with
      | error reason =>
          have hruntime := @runtime_of_denied policy task.runtime input.packet input.nowMs reason
          rw [hallow] at hruntime
          cases hruntime rfl
          exact Or.inl rfl
      | ok _ =>
          refine Or.inr ⟨rfl, ?_⟩
          dsimp only
          by_cases hwritten : input.WrittenCompletely
          · have hlength : ¬ input.written ≠ (kissFrame 0 input.packet.data).length :=
              not_not.mpr hwritten
            rw [if_neg hlength, if_pos hwritten]
          · have hlength : input.written ≠ (kissFrame 0 input.packet.data).length := hwritten
            rw [if_pos hlength, if_neg hwritten]

/-- What a turn writes is its own packet. -/
theorem step_subset (hsized : input.Sized) :
    (task.step policy input).written ⊆ task.written ++ [input.request] := by
  rcases step_cases policy task hsized with hsame | ⟨-, hstep⟩
  · rw [hsame]
    exact List.subset_append_left _ _
  · rw [hstep]
    dsimp only
    split
    · exact List.Subset.refl _
    · exact List.subset_append_left _ _

/-- Without a dropped identification the clock of the policy is that of the air. -/
theorem step_covered (h : Covered policy task.runtime task.written) (hsized : input.Sized)
    (hlater : ∀ earlier ∈ task.written, earlier.nowMs ≤ input.nowMs)
    (hwritten : input.IdentificationWritten policy) :
    Covered policy (task.step policy input).runtime (task.step policy input).written := by
  rcases step_cases policy task hsized with hsame | ⟨hallow, hstep⟩
  · rw [hsame]
    exact h
  rw [hstep]
  by_cases hcomplete : input.WrittenCompletely
  · rw [if_pos hcomplete]
    exact @Covered.send _ _ _ input.request h hlater hallow
  · rw [if_neg hcomplete]
    -- a packet that is dropped is not an identification, so it has not moved the clock
    rcases allow_packet_cases policy task.runtime input.packet input.nowMs with
      ⟨_, hdenied⟩ | ⟨hcheck, hid, -⟩ | ⟨-, -, -, hsame⟩
    · rw [hdenied] at hallow
      cases hallow
    · exact absurd (hwritten hcheck hid) hcomplete
    · rw [hsame]
      exact h

/-- One input more. -/
theorem run_concat (policy : LmAirTxPolicy) (inputs : List KissTxInput) (input : KissTxInput) :
    run policy (inputs ++ [input]) = (run policy inputs).step policy input :=
  List.foldl_append

/-- Only packets of the inputs are written. -/
theorem run_subset (hsized : ∀ input ∈ inputs, input.Sized) :
    (run policy inputs).written ⊆ inputs.map KissTxInput.request :=
  @Lib.foldl_subset _ _ _ (step policy) written KissTxInput.request inputs ⟨.zero, []⟩
    fun input hmem _ => step_subset (hsized input hmem)

/-- The invariant over a run. -/
theorem run_covered (hsized : ∀ input ∈ inputs, input.Sized)
    (htimes : inputs.Pairwise fun first second => first.nowMs ≤ second.nowMs)
    (hwritten : ∀ input ∈ inputs, input.IdentificationWritten policy) :
    Covered policy (run policy inputs).runtime (run policy inputs).written := by
  induction inputs using List.reverseRecOn with
  | nil => exact Covered.zero policy
  | append_singleton inputs input ih =>
      have hmem : input ∈ inputs ++ [input] :=
        List.mem_append_right _ (List.mem_singleton.mpr rfl)
      obtain ⟨hbefore, -, hlast⟩ := List.pairwise_append.mp htimes
      have hsizedBefore := (List.forall_mem_append.mp hsized).1
      have hcovered := ih hsizedBefore hbefore (List.forall_mem_append.mp hwritten).1
      rw [run_concat]
      refine step_covered hcovered (hsized input hmem) (fun earlier hearlier => ?_)
        (hwritten input hmem)
      obtain ⟨source, hsource, rfl⟩ := List.mem_map.mp (run_subset hsizedBefore hearlier)
      exact hlast source hsource input (List.mem_singleton.mpr rfl)

/-- In every run in which no identification is dropped, every packet on the air that is not an
identification has one before it on the air, within the interval. -/
theorem run_identified (policy : LmAirTxPolicy) (inputs : List KissTxInput)
    (hsized : ∀ input ∈ inputs, input.Sized)
    (htimes : inputs.Pairwise fun first second => first.nowMs ≤ second.nowMs)
    (hwritten : ∀ input ∈ inputs, input.IdentificationWritten policy) :
    Identified policy (run policy inputs).written :=
  (run_covered hsized htimes hwritten).identified

/-- An identification and a packet in the same second, each with what is written of it. -/
def sampleInputs (identification packet : Int) : List KissTxInput :=
  [⟨⟨[0x76, 0x65, 0x33, 0x6c, 0x6d], 0, 0x03⟩, 1000, identification⟩,
    ⟨⟨[0x2a], 0, 0x01⟩, 1500, packet⟩]

/-- The theorem at inputs that are written completely. -/
theorem run_identified_sample :
    (run TxHistory.samplePolicy (sampleInputs 8 4)).written.length = 2 ∧
      Identified TxHistory.samplePolicy
        (run TxHistory.samplePolicy (sampleInputs 8 4)).written :=
  ⟨by decide, run_identified _ _ (by decide) (by decide) (by decide)⟩

/-- The identification is cut short, and the packet goes out without one. -/
theorem unidentified_after_short_write :
    ¬ ∀ policy inputs, (∀ input ∈ inputs, KissTxInput.Sized input) →
      (inputs.Pairwise fun first second => first.nowMs ≤ second.nowMs) →
        Identified policy (run policy inputs).written := by
  intro h
  have hwritten : (run TxHistory.samplePolicy (sampleInputs 3 4)).written =
      [] ++ ⟨⟨[0x2a], 0, 0x01⟩, 1500⟩ :: [] := by decide
  obtain ⟨id, hmem, -⟩ := h TxHistory.samplePolicy (sampleInputs 3 4) (by decide) (by decide) _ _ _
    hwritten fun hid => hid.1 (by decide)
  exact List.not_mem_nil hmem

end KissTxTask

end LatentMesh.Esp32
