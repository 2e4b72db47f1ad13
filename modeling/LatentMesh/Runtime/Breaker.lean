import LatentMesh.AirC.Rx
import LatentMesh.Lib.Streak
import LatentMesh.Runtime.Interleaving

/-!
# The runtime breaker

`lm_rt_decide` and `lm_rt_ingest` of `runtime.c`. The clock and the callbacks are functions on a
world that they may change as they like. What a policy or a receiver does is used only if its call
was approved (`PolicyApproved`, `ReceiverApproved`), and its side opens after eight calls in a row
that were not: see `runtime_contained`. The pointers are not null, and the callbacks do not write to
what they are not handed.
-/

namespace LatentMesh.Runtime

open LatentMesh.Lib LatentMesh.AirC

/-! ## State -/

/-- `lm_rt_intent_t`. -/
structure LmRtIntent where
  generation : UInt64
  priority : UInt8
  deriving DecidableEq

/-- The fields of `lm_rt_t` for the policy, or for the receiver. -/
structure LmRtSide where
  budgetNs : UInt64
  misses : UInt32
  isOpen : Bool
  fallbacks : UInt64
  lastNs : UInt64

/-- `lm_rt_t`, without the callbacks. -/
structure LmRt where
  policy : LmRtSide
  receiver : LmRtSide
  observer : LmRtQueue LmAirBlock

/-- The clock and the callbacks. -/
structure Host (World : Type) where
  clock : World → UInt64 × World
  policy : Option (World → LmRtIntent → (Int32 × LmRtIntent) × World)
  receiver : Option (World → LmAirBlock → (Int32 × LmAirBlock) × World)

/-- A call of a callback: what it was handed, what it returned, and the clock before and after. -/
structure Invocation (α : Type) where
  given : α
  start : UInt64
  ok : Int32
  candidate : α
  finish : UInt64

/-- A zeroed block. -/
def LmAirBlock.zero : LmAirBlock where
  rawLen := 0
  bitLen := 0
  fec := 0
  interleaveRows := 0
  data := List.replicate lmAirFecMaxCodedBytes 0
  data_size := List.length_replicate

/-- A side without a miss. -/
def LmRtSide.init (budgetNs : UInt64) : LmRtSide := ⟨budgetNs, 0, false, 0, 0⟩

/-- `lm_rt_init`. The budgets may be set before the first call. -/
def lmRtInit (policyBudgetNs receiverBudgetNs : UInt64) : LmRt :=
  ⟨.init policyBudgetNs, .init receiverBudgetNs, .init LmAirBlock.zero⟩

/-- The runtime, the air receiver and the world. The calls of the callbacks are kept, the newest
first. -/
structure Lane (World : Type) where
  rt : LmRt
  rx : LmAirRx
  world : World
  policyCalls : List (Invocation LmRtIntent)
  receiverCalls : List (Invocation LmAirBlock)

/-! ## Operations -/

variable {World : Type}

/-- `lm_rt_publish`, without a step of the consumer in between. -/
def LmRtQueue.publish {β : Type} (queue : LmRtQueue β) (block : β) : Bool × LmRtQueue β :=
  if 8 ≤ queue.head - queue.tail then (false, { queue with dropped := queue.dropped + 1 })
  else (true, { queue with
    blocks := queue.blocks.set (slotOf queue.head) block, head := queue.head + 1 })

/-- The steps of `lm_rt_publish`. -/
theorem LmRtQueue.publish_run {β : Type} {zero : β} {queue : LmRtQueue β} {consumer : TakePoint β}
    {events : List (QueueEvent β)} (hrun : QueueRun zero events ⟨queue, .idle, consumer⟩)
    (block : β) :
    QueueRun zero
      (events ++ [if (queue.publish block).1 then .published block else .refused block])
      ⟨(queue.publish block).2, .idle, consumer⟩ := by
  have hcalled := (hrun.step (.produce (.call block))).step (.produce (.loadHead block))
  rw [Option.toList_none, List.append_nil, List.append_nil] at hcalled
  unfold publish
  split
  · rename_i hfull
    have hdrop := hcalled.step (.produce (.full hfull))
    rw [Option.toList_none, List.append_nil] at hdrop
    exact hdrop.step (.produce (.drop block))
  · rename_i hroom
    have hcopied := (hcalled.step (.produce (.room hroom))).step (.produce (.copied block _))
    rw [Option.toList_none, List.append_nil, List.append_nil] at hcopied
    exact hcopied.step (.produce (.storeHead block _))

/-- `lm_rt_take`, without a step of the producer in between. -/
def LmRtQueue.take {β : Type} (queue : LmRtQueue β) : Option β × LmRtQueue β :=
  if queue.head = queue.tail then (none, queue)
  else (some queue.blocks[slotOf queue.tail], { queue with tail := queue.tail + 1 })

/-- The steps of `lm_rt_take`. -/
theorem LmRtQueue.take_run {β : Type} {zero : β} {queue : LmRtQueue β} {producer : PublishPoint β}
    {events : List (QueueEvent β)} (hrun : QueueRun zero events ⟨queue, producer, .idle⟩) :
    QueueRun zero (events ++ [(queue.take.1.map QueueEvent.took).getD .empty])
      ⟨queue.take.2, producer, .idle⟩ := by
  have hcalled := (hrun.step (.consume .call)).step (.consume .loadTail)
  rw [Option.toList_none, List.append_nil, List.append_nil] at hcalled
  unfold take
  split
  · rename_i hempty
    exact hcalled.step (.consume (.empty hempty))
  · rename_i hready
    have hcopied := (hcalled.step (.consume (.ready hready))).step (.consume (.copied _))
    rw [Option.toList_none, List.append_nil, List.append_nil] at hcopied
    exact hcopied.step (.consume (.storeTail _ _))

/-- `elapsed`. -/
def elapsedNs (start finish : UInt64) : UInt64 :=
  if start ≤ finish then finish - start else UInt64.ofNat (2 ^ 64 - 1)

/-- The clock, a callback and the clock again. -/
def Host.invoke {α : Type} (host : Host World)
    (callback : World → α → (Int32 × α) × World) (world : World) (given : α) :
    Invocation α × World :=
  let (start, world) := host.clock world
  let ((ok, candidate), world) := callback world given
  let (finish, world) := host.clock world
  (⟨given, start, ok, candidate, finish⟩, world)

/-- A miss opens the side when it is the eighth in a row. -/
def LmRtSide.miss (side : LmRtSide) : LmRtSide :=
  { side with misses := side.misses + 1, isOpen := side.isOpen || decide (8 ≤ side.misses + 1) }

/-- `lm_rt_decide`. -/
def lmRtDecide (host : Host World) (lane : Lane World) (baseline : LmRtIntent) :
    LmRtIntent × Lane World :=
  let side := { lane.rt.policy with lastNs := 0 }
  match host.policy, side.isOpen with
  | some policy, false =>
      let (call, world) := host.invoke policy lane.world baseline
      let side := { side with lastNs := elapsedNs call.start call.finish }
      let ok := decide (side.lastNs ≤ side.budgetNs) && decide (call.ok ≠ 0)
      let lane := { lane with world, policyCalls := call :: lane.policyCalls }
      if !ok || decide (call.candidate.generation ≠ baseline.generation) ||
          decide (15 < call.candidate.priority) then
        let side := { side with fallbacks := side.fallbacks + 1 }.miss
        (baseline, { lane with rt := { lane.rt with policy := side } })
      else
        let side := { side with misses := 0 }
        (call.candidate, { lane with rt := { lane.rt with policy := side } })
  | _, _ =>
      let side := { side with fallbacks := side.fallbacks + 1 }
      (baseline, { lane with rt := { lane.rt with policy := side } })

/-- The metadata that a candidate has to keep. -/
def SameFraming (candidate block : LmAirBlock) : Prop :=
  candidate.rawLen = block.rawLen ∧ candidate.bitLen = block.bitLen ∧ candidate.fec = block.fec ∧
    candidate.interleaveRows = block.interleaveRows

instance (candidate block : LmAirBlock) : Decidable (SameFraming candidate block) :=
  inferInstanceAs (Decidable (_ ∧ _))

/-- The block that `lm_rt_ingest` selects. -/
def selectBlock (host : Host World) (lane : Lane World) (block : LmAirBlock) :
    LmAirBlock × Lane World :=
  let side := { lane.rt.receiver with lastNs := 0 }
  match host.receiver, side.isOpen with
  | some receiver, false =>
      let (call, world) := host.invoke receiver lane.world block
      let side := { side with lastNs := elapsedNs call.start call.finish }
      let ok := decide (side.lastNs ≤ side.budgetNs) && decide (call.ok ≠ 0)
      let ok := ok && decide (SameFraming call.candidate block)
      let lane := { lane with world, receiverCalls := call :: lane.receiverCalls }
      if ok then
        let side := { side with misses := 0 }
        (call.candidate, { lane with rt := { lane.rt with receiver := side } })
      else
        let side := { side.miss with fallbacks := side.fallbacks + 1 }
        (block, { lane with rt := { lane.rt with receiver := side } })
  | _, _ =>
      let side := { side with fallbacks := side.fallbacks + 1 }
      (block, { lane with rt := { lane.rt with receiver := side } })

/-- `lm_rt_ingest`. -/
def lmRtIngest (host : Host World) (callbacks : LmAirRxCallbacks) (lane : Lane World)
    (block : LmAirBlock) : (LmAirStatus × Option LmAirDelivery) × Lane World :=
  let (selected, lane) := selectBlock host lane block
  let observer := (lane.rt.observer.publish selected).2
  let (rx, status, delivery) := lmAirRxIngestBlock callbacks lane.rx selected
  ((status, delivery), { lane with rt := { lane.rt with observer }, rx })

/-! ## Runs -/

/-- The calls on a lane. -/
inductive LaneCall where
  | decide (baseline : LmRtIntent)
  | ingest (callbacks : LmAirRxCallbacks) (block : LmAirBlock)
  | take

/-- A call on a lane. -/
def Lane.step (host : Host World) (lane : Lane World) : LaneCall → Lane World
  | .decide baseline => (lmRtDecide host lane baseline).2
  | .ingest callbacks block => (lmRtIngest host callbacks lane block).2
  | .take => { lane with rt := { lane.rt with observer := lane.rt.observer.take.2 } }

/-- A configured runtime before its first call. -/
def Lane.start (policyBudgetNs receiverBudgetNs : UInt64) (rx : LmAirRx) (world : World) :
    Lane World :=
  ⟨lmRtInit policyBudgetNs receiverBudgetNs, rx, world, [], []⟩

/-- A lane after some calls. -/
def Lane.after (host : Host World) (lane : Lane World) (calls : List LaneCall) : Lane World :=
  calls.foldl (Lane.step host) lane

/-! ## Approved calls -/

/-- The callback approved its candidate, and took no more than the budget. The largest budget is no
limit. -/
def Invocation.InTime {α : Type} (call : Invocation α) (budgetNs : UInt64) : Prop :=
  call.ok ≠ 0 ∧ (call.start ≤ call.finish ∧
    call.finish.toNat ≤ call.start.toNat + budgetNs.toNat ∨ budgetNs.toNat = 2 ^ 64 - 1)

instance {α : Type} (call : Invocation α) (budgetNs : UInt64) : Decidable (call.InTime budgetNs) :=
  inferInstanceAs (Decidable (_ ∧ _))

/-- The policy approved an intent of the same generation with a priority up to 15. -/
def PolicyApproved (budgetNs : UInt64) (call : Invocation LmRtIntent) : Prop :=
  call.InTime budgetNs ∧ call.candidate.generation = call.given.generation ∧
    call.candidate.priority ≤ 15

instance (budgetNs : UInt64) : DecidablePred (PolicyApproved budgetNs) :=
  fun _ => inferInstanceAs (Decidable (_ ∧ _))

/-- The receiver approved a block with the same framing. -/
def ReceiverApproved (budgetNs : UInt64) (call : Invocation LmAirBlock) : Prop :=
  call.InTime budgetNs ∧ SameFraming call.candidate call.given

instance (budgetNs : UInt64) : DecidablePred (ReceiverApproved budgetNs) :=
  fun _ => inferInstanceAs (Decidable (_ ∧ _))

/-- A call whose candidate is not used. -/
def Missed {α : Type} (Approved : Invocation α → Prop) (call : Invocation α) : Prop :=
  ¬ Approved call

instance {α : Type} (Approved : Invocation α → Prop) [DecidablePred Approved] :
    DecidablePred (Missed Approved) :=
  fun _ => inferInstanceAs (Decidable (¬ _))

/-- The elapsed time is within the budget when the clock went on by no more than it, or when the
budget is the greatest. -/
theorem elapsed_le_iff {start finish budgetNs : UInt64} :
    elapsedNs start finish ≤ budgetNs ↔
      start ≤ finish ∧ finish.toNat ≤ start.toNat + budgetNs.toNat ∨
        budgetNs.toNat = 2 ^ 64 - 1 := by
  have hbudget := budgetNs.toNat_lt
  have hfinish := finish.toNat_lt
  unfold elapsedNs
  split
  · rename_i horder
    rw [UInt64.le_iff_toNat_le, UInt64.toNat_sub_of_le _ _ horder, and_iff_right horder]
    omega
  · rename_i horder
    rw [UInt64.le_iff_toNat_le, UInt64.toNat_ofNat', Nat.mod_eq_of_lt (by decide)]
    simp only [horder, false_and, false_or]
    omega

/-! ## One side -/

/-- What a call does to a side and to the calls of its callback. -/
inductive SideStep {α : Type} (Approved : Invocation α → Prop) (side : LmRtSide)
    (calls : List (Invocation α)) (next : LmRtSide) : List (Invocation α) → Prop where
  | skipped (hbudget : next.budgetNs = side.budgetNs) (hmisses : next.misses = side.misses)
      (hopen : next.isOpen = side.isOpen) : SideStep Approved side calls next calls
  | missed {call : Invocation α} (hclosed : side.isOpen = false) (hcall : ¬ Approved call)
      (hbudget : next.budgetNs = side.budgetNs) (hmisses : next.misses = side.misses + 1)
      (hopen : next.isOpen = decide (8 ≤ side.misses + 1)) :
      SideStep Approved side calls next (call :: calls)
  | approved {call : Invocation α} (hclosed : side.isOpen = false) (hcall : Approved call)
      (hbudget : next.budgetNs = side.budgetNs) (hmisses : next.misses = 0)
      (hopen : next.isOpen = false) : SideStep Approved side calls next (call :: calls)

/-- A side is open just when its callback has missed eight times in a row. Until then it counts the
misses since the last approved call. -/
structure LmRtSide.Sound {α : Type} (Approved : Invocation α → Prop) [DecidablePred Approved]
    (side : LmRtSide) (calls : List (Invocation α)) : Prop where
  opened : side.isOpen = true ↔ HasRun (Missed Approved) 8 calls
  counted : side.isOpen = false → side.misses.toNat = streak (Missed Approved) calls

section Side

variable {α : Type} {Approved : Invocation α → Prop} {side next : LmRtSide}
  {calls later : List (Invocation α)}

/-- A call keeps the budget. -/
theorem SideStep.budget (h : SideStep Approved side calls next later) :
    next.budgetNs = side.budgetNs := by
  cases h <;> assumption

/-- An open side does not call. -/
theorem SideStep.of_open (h : SideStep Approved side calls next later)
    (hopen : side.isOpen = true) : next.isOpen = true ∧ later = calls := by
  cases h with
  | skipped hbudget hmisses hsame => exact ⟨hsame.trans hopen, rfl⟩
  | missed hclosed => exact absurd (hclosed.symm.trans hopen) (by decide)
  | approved hclosed => exact absurd (hclosed.symm.trans hopen) (by decide)

variable [DecidablePred Approved]

/-- A side without calls is sound. -/
theorem LmRtSide.init_sound (budgetNs : UInt64) : (LmRtSide.init budgetNs).Sound Approved [] where
  opened := iff_of_false Bool.false_ne_true (not_has_run_nil (by decide))
  counted _ := rfl

/-- A call keeps a side sound. -/
theorem SideStep.sound (h : SideStep Approved side calls next later)
    (hsound : side.Sound Approved calls) : next.Sound Approved later := by
  cases h with
  | skipped hbudget hmisses hopen => exact ⟨hopen ▸ hsound.opened, hmisses ▸ hopen ▸ hsound.counted⟩
  | @missed call hclosed hcall hbudget hmisses hopen =>
      have hcount := hsound.counted hclosed
      have hnone : ¬ HasRun (Missed Approved) 8 calls := fun hrun =>
        absurd (hclosed.symm.trans (hsound.opened.mpr hrun)) (by decide)
      -- the streak before this miss was shorter than eight
      have hshort : streak (Missed Approved) calls < 8 :=
        not_le.mp fun hlong => hnone (has_run_of_le_streak hlong)
      have hnext : (side.misses + 1).toNat = streak (Missed Approved) (call :: calls) := by
        rw [streak_cons_of_pos (show Missed Approved call from hcall), UInt32.toNat_add, hcount]
        exact Nat.mod_eq_of_lt (by rw [UInt32.toNat_one]; omega)
      refine ⟨?_, fun _ => by rw [hmisses, hnext]⟩
      rw [hopen, decide_eq_true_iff, has_run_cons_iff, or_iff_right hnone, ← hnext]
      exact UInt32.le_iff_toNat_le
  | @approved call hclosed hcall hbudget hmisses hopen =>
      -- an approved call ends the streak
      have hnone : ¬ HasRun (Missed Approved) 8 calls := fun hrun =>
        absurd (hclosed.symm.trans (hsound.opened.mpr hrun)) (by decide)
      have hstreak : streak (Missed Approved) (call :: calls) = 0 :=
        streak_cons_of_neg (show ¬ Missed Approved call from not_not.mpr hcall)
      refine ⟨iff_of_false (by rw [hopen]; decide) ?_, fun _ => by rw [hmisses, hstreak]; rfl⟩
      rw [has_run_cons_iff, hstreak]
      exact not_or.mpr ⟨hnone, by decide⟩

end Side

/-! ## One call -/

variable {host : Host World} {lane : Lane World}

/-- An invocation records what the callback was given. -/
theorem invoke_given {α : Type} (host : Host World)
    (callback : World → α → (Int32 × α) × World) (world : World) (given : α) :
    (host.invoke callback world given).1.given = given := rfl

/-- The test of the policy's answer. -/
theorem policy_refused_iff {call : Invocation LmRtIntent} {budgetNs : UInt64} :
    (!(decide (elapsedNs call.start call.finish ≤ budgetNs) && decide (call.ok ≠ 0)) ||
      decide (call.candidate.generation ≠ call.given.generation) ||
      decide (15 < call.candidate.priority)) = true ↔ ¬ PolicyApproved budgetNs call := by
  rw [PolicyApproved, Invocation.InTime, ← elapsed_le_iff, ← UInt8.not_lt]
  simp only [Bool.or_eq_true, Bool.not_eq_true', Bool.and_eq_false_iff, decide_eq_true_eq,
    decide_eq_false_iff_not]
  tauto

/-- What `lm_rt_decide` returns, and what it does to the side of the policy. -/
theorem lm_rt_decide_spec (host : Host World) (lane : Lane World) (baseline : LmRtIntent) :
    SideStep (PolicyApproved lane.rt.policy.budgetNs) lane.rt.policy lane.policyCalls
        (lmRtDecide host lane baseline).2.rt.policy (lmRtDecide host lane baseline).2.policyCalls ∧
      ((lmRtDecide host lane baseline).1 = baseline ∨ ∃ call,
        (lmRtDecide host lane baseline).2.policyCalls = call :: lane.policyCalls ∧
          call.given = baseline ∧ PolicyApproved lane.rt.policy.budgetNs call ∧
          (lmRtDecide host lane baseline).1 = call.candidate) := by
  unfold lmRtDecide
  dsimp only
  split
  · rename_i policy hpolicy hclosed
    have hgiven := invoke_given host policy lane.world baseline
    -- nothing else is known of the call
    generalize (host.invoke policy lane.world baseline).1 = call at hgiven ⊢
    generalize (host.invoke policy lane.world baseline).2 = world
    subst hgiven
    split
    · rename_i hrefused
      exact ⟨.missed hclosed (policy_refused_iff.mp hrefused) rfl rfl
        (by rw [LmRtSide.miss, hclosed, Bool.false_or]), Or.inl rfl⟩
    · rename_i hrefused
      have hcall := not_not.mp fun h => hrefused (policy_refused_iff.mpr h)
      exact ⟨.approved hclosed hcall rfl rfl hclosed, Or.inr ⟨call, rfl, rfl, hcall, rfl⟩⟩
  · exact ⟨.skipped rfl rfl rfl, Or.inl rfl⟩

/-- The rest of the lane. -/
theorem lm_rt_decide_frame (host : Host World) (lane : Lane World) (baseline : LmRtIntent) :
    (lmRtDecide host lane baseline).2.rt.receiver = lane.rt.receiver ∧
      (lmRtDecide host lane baseline).2.receiverCalls = lane.receiverCalls := by
  unfold lmRtDecide
  dsimp only
  split
  · split <;> exact ⟨rfl, rfl⟩
  · exact ⟨rfl, rfl⟩

/-- The test of the receiver's answer. -/
theorem receiver_accepted_iff {call : Invocation LmAirBlock} {budgetNs : UInt64} :
    (decide (elapsedNs call.start call.finish ≤ budgetNs) && decide (call.ok ≠ 0) &&
      decide (SameFraming call.candidate call.given)) = true ↔ ReceiverApproved budgetNs call := by
  rw [ReceiverApproved, Invocation.InTime, ← elapsed_le_iff]
  simp only [Bool.and_eq_true, decide_eq_true_eq]
  tauto

/-- What `lm_rt_ingest` selects, and what it does to the side of the receiver. -/
theorem select_block_spec (host : Host World) (lane : Lane World) (block : LmAirBlock) :
    SideStep (ReceiverApproved lane.rt.receiver.budgetNs) lane.rt.receiver lane.receiverCalls
        (selectBlock host lane block).2.rt.receiver (selectBlock host lane block).2.receiverCalls ∧
      ((selectBlock host lane block).1 = block ∨ ∃ call,
        (selectBlock host lane block).2.receiverCalls = call :: lane.receiverCalls ∧
          call.given = block ∧ ReceiverApproved lane.rt.receiver.budgetNs call ∧
          (selectBlock host lane block).1 = call.candidate) := by
  unfold selectBlock
  dsimp only
  split
  · rename_i receiver hreceiver hclosed
    have hgiven := invoke_given host receiver lane.world block
    generalize (host.invoke receiver lane.world block).1 = call at hgiven ⊢
    generalize (host.invoke receiver lane.world block).2 = world
    subst hgiven
    split
    · rename_i haccepted
      have hcall := receiver_accepted_iff.mp haccepted
      exact ⟨.approved hclosed hcall rfl rfl hclosed, Or.inr ⟨call, rfl, rfl, hcall, rfl⟩⟩
    · rename_i haccepted
      exact ⟨.missed hclosed (fun hcall => haccepted (receiver_accepted_iff.mpr hcall)) rfl rfl
        (by rw [LmRtSide.miss, hclosed, Bool.false_or]), Or.inl rfl⟩
  · exact ⟨.skipped rfl rfl rfl, Or.inl rfl⟩

/-- Choosing a block leaves the policy's side as it is. -/
theorem select_block_frame (host : Host World) (lane : Lane World) (block : LmAirBlock) :
    (selectBlock host lane block).2.rt.policy = lane.rt.policy ∧
      (selectBlock host lane block).2.policyCalls = lane.policyCalls ∧
      (selectBlock host lane block).2.rx = lane.rx := by
  unfold selectBlock
  dsimp only
  split
  · split <;> exact ⟨rfl, rfl, rfl⟩
  · exact ⟨rfl, rfl, rfl⟩

/-! ## Every run -/

/-- What a call does to the policy's side. -/
theorem step_policy (host : Host World) (lane : Lane World) (call : LaneCall) :
    SideStep (PolicyApproved lane.rt.policy.budgetNs) lane.rt.policy lane.policyCalls
      (lane.step host call).rt.policy (lane.step host call).policyCalls := by
  cases call with
  | decide baseline => exact (lm_rt_decide_spec host lane baseline).1
  | ingest callbacks block =>
      obtain ⟨hpolicy, hcalls, -⟩ := select_block_frame host lane block
      show SideStep _ _ _ (selectBlock host lane block).2.rt.policy
        (selectBlock host lane block).2.policyCalls
      rw [hpolicy, hcalls]
      exact .skipped rfl rfl rfl
  | take => exact .skipped rfl rfl rfl

/-- What a call does to the receiver's side. -/
theorem step_receiver (host : Host World) (lane : Lane World) (call : LaneCall) :
    SideStep (ReceiverApproved lane.rt.receiver.budgetNs) lane.rt.receiver lane.receiverCalls
      (lane.step host call).rt.receiver (lane.step host call).receiverCalls := by
  cases call with
  | decide baseline =>
      obtain ⟨hreceiver, hcalls⟩ := lm_rt_decide_frame host lane baseline
      show SideStep _ _ _ (lmRtDecide host lane baseline).2.rt.receiver
        (lmRtDecide host lane baseline).2.receiverCalls
      rw [hreceiver, hcalls]
      exact .skipped rfl rfl rfl
  | ingest callbacks block => exact (select_block_spec host lane block).1
  | take => exact .skipped rfl rfl rfl

/-- Both sides of a lane. -/
structure Lane.Sound (lane : Lane World) (policyBudgetNs receiverBudgetNs : UInt64) : Prop where
  policyBudget : lane.rt.policy.budgetNs = policyBudgetNs
  receiverBudget : lane.rt.receiver.budgetNs = receiverBudgetNs
  policy : lane.rt.policy.Sound (PolicyApproved policyBudgetNs) lane.policyCalls
  receiver : lane.rt.receiver.Sound (ReceiverApproved receiverBudgetNs) lane.receiverCalls

variable {policyBudgetNs receiverBudgetNs : UInt64}

/-- A new lane is sound. -/
theorem Lane.start_sound (rx : LmAirRx) (world : World) :
    (Lane.start policyBudgetNs receiverBudgetNs rx world).Sound policyBudgetNs
      receiverBudgetNs where
  policyBudget := rfl
  receiverBudget := rfl
  policy := LmRtSide.init_sound policyBudgetNs
  receiver := LmRtSide.init_sound receiverBudgetNs

/-- A call keeps a lane sound. -/
theorem Lane.Sound.step (h : lane.Sound policyBudgetNs receiverBudgetNs) (host : Host World)
    (call : LaneCall) : (lane.step host call).Sound policyBudgetNs receiverBudgetNs := by
  obtain ⟨rfl, rfl, hpolicy, hreceiver⟩ := h
  exact ⟨(step_policy host lane call).budget, (step_receiver host lane call).budget,
    (step_policy host lane call).sound hpolicy, (step_receiver host lane call).sound hreceiver⟩

/-- Calls keep a lane sound. -/
theorem Lane.Sound.after (h : lane.Sound policyBudgetNs receiverBudgetNs) (host : Host World)
    (calls : List LaneCall) : (lane.after host calls).Sound policyBudgetNs receiverBudgetNs := by
  induction calls generalizing lane with
  | nil => exact h
  | cons call calls ih => exact ih (h.step host call)

/-- A policy whose side is open is not called again. -/
theorem after_policy_of_open (h : lane.rt.policy.isOpen = true) (later : List LaneCall) :
    (lane.after host later).policyCalls = lane.policyCalls := by
  induction later generalizing lane with
  | nil => rfl
  | cons call later ih =>
      obtain ⟨hopen, hcalls⟩ := (step_policy host lane call).of_open h
      exact (ih hopen).trans hcalls

/-- Once the breaker of the receiver is open, it is not called again. -/
theorem after_receiver_of_open (h : lane.rt.receiver.isOpen = true) (later : List LaneCall) :
    (lane.after host later).receiverCalls = lane.receiverCalls := by
  induction later generalizing lane with
  | nil => rfl
  | cons call later ih =>
      obtain ⟨hopen, hcalls⟩ := (step_receiver host lane call).of_open h
      exact (ih hopen).trans hcalls

/-- After any calls, an intent is the baseline or the candidate of an approved call of the policy,
and the block that the air receiver gets is the given one or the candidate of an approved call of
the receiver. After eight misses in a row a callback is not called again. -/
theorem runtime_contained (host : Host World) (policyBudgetNs receiverBudgetNs : UInt64)
    (rx : LmAirRx) (world : World) (before : List LaneCall) :
    let lane := (Lane.start policyBudgetNs receiverBudgetNs rx world).after host before
    (∀ baseline, (lmRtDecide host lane baseline).1 = baseline ∨ ∃ call,
      (lmRtDecide host lane baseline).2.policyCalls = call :: lane.policyCalls ∧
        call.given = baseline ∧ PolicyApproved policyBudgetNs call ∧
        (lmRtDecide host lane baseline).1 = call.candidate) ∧
    (∀ callbacks block, ∃ selected,
      ((lmRtIngest host callbacks lane block).2.rx, (lmRtIngest host callbacks lane block).1) =
          lmAirRxIngestBlock callbacks lane.rx selected ∧
        (selected = block ∨ ∃ call,
          (lmRtIngest host callbacks lane block).2.receiverCalls = call :: lane.receiverCalls ∧
            call.given = block ∧ ReceiverApproved receiverBudgetNs call ∧
            selected = call.candidate)) ∧
    (HasRun (Missed (PolicyApproved policyBudgetNs)) 8 lane.policyCalls →
      ∀ later, (lane.after host later).policyCalls = lane.policyCalls) ∧
    (HasRun (Missed (ReceiverApproved receiverBudgetNs)) 8 lane.receiverCalls →
      ∀ later, (lane.after host later).receiverCalls = lane.receiverCalls) := by
  intro lane
  have hsound : lane.Sound policyBudgetNs receiverBudgetNs :=
    (Lane.start_sound rx world).after host before
  obtain ⟨hpolicyBudget, hreceiverBudget, hpolicy, hreceiver⟩ := hsound
  refine ⟨fun baseline => ?_, fun callbacks block => ?_, fun hrun => ?_, fun hrun => ?_⟩
  · rw [← hpolicyBudget]
    exact (lm_rt_decide_spec host lane baseline).2
  · refine ⟨(selectBlock host lane block).1, ?_, ?_⟩
    · rw [← (select_block_frame host lane block).2.2]
      rfl
    · rw [← hreceiverBudget]
      exact (select_block_spec host lane block).2
  · exact after_policy_of_open (hpolicy.opened.mpr hrun)
  · exact after_receiver_of_open (hreceiver.opened.mpr hrun)

end LatentMesh.Runtime
