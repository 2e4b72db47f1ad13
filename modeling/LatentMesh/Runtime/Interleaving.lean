import LatentMesh.Lib.Transition
import LatentMesh.Runtime.Queue

/-!
# The observer queue is a FIFO

One producer and one consumer take their steps in any order (`QueueWorld.Step`). The counters are
free-running and wrap, so an invariant over a run compares them with the numbers of blocks that were
published and taken (`QueueWorld.Sound`). What was taken is a prefix of what was published, and the
rest is still in its slots: see `queue_fifo`.
-/

namespace LatentMesh.Runtime

open LatentMesh.Lib

variable {β : Type}

/-! ## Runs -/

/-- The queue with its producer and its consumer. -/
structure QueueWorld (β : Type) where
  queue : LmRtQueue β
  producer : PublishPoint β
  consumer : TakePoint β

/-- The queue after `lm_rt_init`, before any call. -/
def QueueWorld.init (zero : β) : QueueWorld β := ⟨.init zero, .idle, .idle⟩

/-- A step of the producer or of the consumer. -/
inductive QueueWorld.Step : QueueWorld β → Option (QueueEvent β) → QueueWorld β → Prop where
  | produce {queue queue' : LmRtQueue β} {producer producer' : PublishPoint β}
      {consumer : TakePoint β} {event : Option (QueueEvent β)}
      (hstep : PublishStep queue producer queue' producer' event) :
      Step ⟨queue, producer, consumer⟩ event ⟨queue', producer', consumer⟩
  | consume {queue queue' : LmRtQueue β} {producer : PublishPoint β}
      {consumer consumer' : TakePoint β} {event : Option (QueueEvent β)}
      (hstep : TakeStep queue consumer queue' consumer' event) :
      Step ⟨queue, producer, consumer⟩ event ⟨queue', producer, consumer'⟩

/-- What the calls of a run did, in the order in which they returned, and where it ends. -/
inductive QueueRun (zero : β) : List (QueueEvent β) → QueueWorld β → Prop where
  | start : QueueRun zero [] (.init zero)
  | step {events : List (QueueEvent β)} {world next : QueueWorld β}
      {event : Option (QueueEvent β)} (hrun : QueueRun zero events world)
      (hstep : world.Step event next) : QueueRun zero (events ++ event.toList) next

/-- The blocks that were published, in order. -/
def publishedBlocks (events : List (QueueEvent β)) : List β :=
  events.filterMap fun
    | .published block => some block
    | _ => none

/-- The blocks that were taken, in order. -/
def takenBlocks (events : List (QueueEvent β)) : List β :=
  events.filterMap fun
    | .took block => some block
    | _ => none

/-- The blocks that were refused, in order. -/
def refusedBlocks (events : List (QueueEvent β)) : List β :=
  events.filterMap fun
    | .refused block => some block
    | _ => none

/-! ## Counters -/

/-- The slot of a count. -/
theorem slot_of_nat (n : Nat) : (slotOf (UInt32.ofNat n)).val = n % 8 := by
  change ((UInt32.ofNat n) % 8).toNat = n % 8
  rw [UInt32.toNat_mod, UInt32.toNat_ofNat']
  exact Nat.mod_mod_of_dvd n (by decide)

/-- The indices of fewer than eight blocks in a row have different slots. -/
theorem slot_ne_of_lt {first second : Nat} (hlt : first < second) (hnear : second < first + 8) :
    slotOf (UInt32.ofNat first) ≠ slotOf (UInt32.ofNat second) := by
  intro heq
  have hmod := congrArg Fin.val heq
  rw [slot_of_nat, slot_of_nat] at hmod
  omega

/-- The difference of two counters that have wrapped is the number of blocks between them. -/
theorem counter_sub {taken published : Nat} (hle : taken ≤ published)
    (hnear : published ≤ taken + 8) :
    (UInt32.ofNat published - UInt32.ofNat taken).toNat = published - taken := by
  rw [UInt32.toNat_sub, UInt32.toNat_ofNat', UInt32.toNat_ofNat']
  omega

/-- Equal counters mean an empty queue, also when they wrap. -/
theorem counter_eq_iff {taken published : Nat} (hle : taken ≤ published)
    (hnear : published ≤ taken + 8) :
    UInt32.ofNat published = UInt32.ofNat taken ↔ published = taken := by
  constructor
  · intro heq
    have hsub := counter_sub hle hnear
    rw [heq, UInt32.sub_self, UInt32.toNat_zero] at hsub
    omega
  · rintro rfl
    rfl

/-- Counters eight apart mean a full queue, also when they wrap. -/
theorem counter_full_iff {taken published : Nat} (hle : taken ≤ published)
    (hnear : published ≤ taken + 8) :
    8 ≤ UInt32.ofNat published - UInt32.ofNat taken ↔ published = taken + 8 := by
  rw [UInt32.le_iff_toNat_le, counter_sub hle hnear, show UInt32.toNat 8 = 8 from rfl]
  omega

/-! ## The invariant -/

/-- What holds of the producer, with `published` the blocks so far and `taken` the number of those
that were taken. The producer may hold an old tail, so it only knows that there is room. -/
def PublishPoint.Sound (queue : LmRtQueue β) (published : List β) (taken : Nat) :
    PublishPoint β → Prop
  | .idle | .loadHead _ | .drop _ => True
  | .loadTail _ head => head = UInt32.ofNat published.length
  | .copy _ head => head = UInt32.ofNat published.length ∧ published.length < taken + 8
  | .storeHead block head => head = UInt32.ofNat published.length ∧
      published.length < taken + 8 ∧ queue.blocks[slotOf head] = block

/-- What holds of the consumer. -/
def TakePoint.Sound (published : List β) (taken : Nat) : TakePoint β → Prop
  | .idle | .loadTail => True
  | .loadHead tail => tail = UInt32.ofNat taken
  | .copy tail => tail = UInt32.ofNat taken ∧ taken < published.length
  | .storeTail tail block => tail = UInt32.ofNat taken ∧ published[taken]? = some block

/-- The queue after blocks were published, taken and refused. -/
structure QueueWorld.Sound (published taken : List β) (refused : Nat) (world : QueueWorld β) :
    Prop where
  head : world.queue.head = UInt32.ofNat published.length
  tail : world.queue.tail = UInt32.ofNat taken.length
  dropped : world.queue.dropped = UInt32.ofNat refused
  order : taken <+: published
  near : published.length ≤ taken.length + 8
  kept : ∀ index block, taken.length ≤ index → published[index]? = some block →
    world.queue.blocks[slotOf (UInt32.ofNat index)] = block
  producer : world.producer.Sound world.queue published taken.length
  consumer : world.consumer.Sound published taken.length

/-- A new queue is sound. -/
theorem sound_init (zero : β) : (QueueWorld.init zero).Sound [] [] 0 :=
  ⟨rfl, rfl, rfl, List.prefix_rfl, Nat.zero_le _, (fun _ _ _ h => nomatch h), trivial, trivial⟩

section

variable {published taken : List β} {count : Nat} {queue queue' : LmRtQueue β}
  {producer producer' : PublishPoint β} {consumer consumer' : TakePoint β}

/-- Writing behind the blocks that were published changes none of those that were not taken. -/
theorem kept_of_write {start : Nat} {blocks : Vector β lmRtQueueCapacity} (block : β)
    (hroom : published.length < start + 8)
    (hkept : ∀ index block, start ≤ index → published[index]? = some block →
      blocks[slotOf (UInt32.ofNat index)] = block) :
    ∀ index found, start ≤ index → published[index]? = some found →
      (blocks.set (slotOf (UInt32.ofNat published.length)) block)[slotOf (UInt32.ofNat index)] =
        found := by
  intro index found hindex hfound
  have hlt := (List.getElem?_eq_some_iff.mp hfound).1
  rw [vector_set_get, if_neg (slot_ne_of_lt hlt (by omega))]
  exact hkept index found hindex hfound

/-- The next item keeps what was taken a prefix. -/
theorem prefix_concat {next : β} (h : taken <+: published)
    (hnext : published[taken.length]? = some next) : taken ++ [next] <+: published := by
  obtain ⟨rest, rfl⟩ := h
  rw [List.getElem?_append_right le_rfl, Nat.sub_self] at hnext
  cases rest with
  | nil => cases hnext
  | cons block rest =>
      obtain rfl := Option.some.inj hnext
      exact ⟨rest, List.append_assoc ..⟩

/-- A step that ends no call. -/
theorem QueueWorld.Sound.inside {world : QueueWorld β} (h : world.Sound published taken count) :
    world.Sound (published ++ []) (taken ++ []) (count + 0) := by
  rwa [List.append_nil, List.append_nil]

/-- A step of the producer keeps the queue sound. -/
theorem QueueWorld.Sound.produce {event : Option (QueueEvent β)}
    (h : QueueWorld.Sound published taken count ⟨queue, producer, consumer⟩)
    (hstep : PublishStep queue producer queue' producer' event) :
    QueueWorld.Sound (published ++ publishedBlocks event.toList)
      (taken ++ takenBlocks event.toList) (count + (refusedBlocks event.toList).length)
      ⟨queue', producer', consumer⟩ := by
  obtain ⟨hhead, htail, hdropped, horder, hnear, hkept, hproducer, hconsumer⟩ := h
  have hle := horder.length_le
  dsimp only at hhead htail hdropped hkept hproducer hconsumer
  cases hstep with
  | call block =>
      exact .inside ⟨hhead, htail, hdropped, horder, hnear, hkept, trivial, hconsumer⟩
  | loadHead block =>
      exact .inside ⟨hhead, htail, hdropped, horder, hnear, hkept, hhead, hconsumer⟩
  | full hfull =>
      exact .inside ⟨hhead, htail, hdropped, horder, hnear, hkept, trivial, hconsumer⟩
  | room hroom =>
      obtain rfl : _ = UInt32.ofNat published.length := hproducer
      rw [htail, counter_full_iff hle hnear] at hroom
      exact .inside ⟨hhead, htail, hdropped, horder, hnear, hkept, ⟨rfl, by omega⟩, hconsumer⟩
  | drop block =>
      show QueueWorld.Sound (published ++ []) (taken ++ []) (count + 1) _
      rw [List.append_nil, List.append_nil]
      refine ⟨hhead, htail, ?_, horder, hnear, hkept, trivial, hconsumer⟩
      rw [hdropped, UInt32.ofNat_add]
      rfl
  | copying block partly =>
      obtain ⟨rfl, hroom⟩ := hproducer
      exact .inside ⟨hhead, htail, hdropped, horder, hnear, kept_of_write partly hroom hkept,
        ⟨rfl, hroom⟩, hconsumer⟩
  | copied block =>
      obtain ⟨rfl, hroom⟩ := hproducer
      refine .inside ⟨hhead, htail, hdropped, horder, hnear, kept_of_write block hroom hkept,
        ⟨rfl, hroom, ?_⟩, hconsumer⟩
      rw [vector_set_get, if_pos rfl]
  | storeHead block =>
      obtain ⟨rfl, hroom, hwritten⟩ := hproducer
      show QueueWorld.Sound (published ++ [block]) (taken ++ []) (count + 0) _
      rw [List.append_nil]
      refine ⟨?_, htail, hdropped, horder.trans (List.prefix_append ..), ?_, ?_, trivial, ?_⟩
      · rw [List.length_append, UInt32.ofNat_add]
        rfl
      · rw [List.length_append, List.length_singleton]
        omega
      · intro index found hindex hfound
        rw [List.getElem?_append] at hfound
        split at hfound
        · exact hkept index found hindex hfound
        · -- the new block is in the slot of the old head
          have hlt := (List.getElem?_eq_some_iff.mp hfound).1
          rw [List.length_singleton] at hlt
          obtain rfl : index = published.length := by omega
          rw [Nat.sub_self] at hfound
          rw [← Option.some.inj hfound]
          exact hwritten
      · cases consumer with
        | idle => trivial
        | loadTail => trivial
        | loadHead tail => exact hconsumer
        | copy tail =>
            refine ⟨hconsumer.1, ?_⟩
            rw [List.length_append]
            exact Nat.lt_add_right _ hconsumer.2
        | storeTail tail found =>
            refine ⟨hconsumer.1, ?_⟩
            rw [List.getElem?_append_left (List.getElem?_eq_some_iff.mp hconsumer.2).1]
            exact hconsumer.2

/-- A step of the consumer keeps the queue sound. -/
theorem QueueWorld.Sound.consume {event : Option (QueueEvent β)}
    (h : QueueWorld.Sound published taken count ⟨queue, producer, consumer⟩)
    (hstep : TakeStep queue consumer queue' consumer' event) :
    QueueWorld.Sound (published ++ publishedBlocks event.toList)
      (taken ++ takenBlocks event.toList) (count + (refusedBlocks event.toList).length)
      ⟨queue', producer, consumer'⟩ := by
  obtain ⟨hhead, htail, hdropped, horder, hnear, hkept, hproducer, hconsumer⟩ := h
  have hle := horder.length_le
  dsimp only at hhead htail hdropped hkept hproducer hconsumer
  cases hstep with
  | call => exact .inside ⟨hhead, htail, hdropped, horder, hnear, hkept, hproducer, trivial⟩
  | loadTail => exact .inside ⟨hhead, htail, hdropped, horder, hnear, hkept, hproducer, htail⟩
  | empty hempty =>
      exact .inside ⟨hhead, htail, hdropped, horder, hnear, hkept, hproducer, trivial⟩
  | ready hready =>
      obtain rfl : _ = UInt32.ofNat taken.length := hconsumer
      rw [hhead, Ne, counter_eq_iff hle hnear] at hready
      exact .inside ⟨hhead, htail, hdropped, horder, hnear, hkept, hproducer, ⟨rfl, by omega⟩⟩
  | copied =>
      obtain ⟨rfl, hlt⟩ := hconsumer
      refine .inside ⟨hhead, htail, hdropped, horder, hnear, hkept, hproducer, ⟨rfl, ?_⟩⟩
      have hnext := List.getElem?_eq_getElem hlt
      exact hnext.trans (congrArg some (hkept _ _ le_rfl hnext).symm)
  | storeTail tail block =>
      obtain ⟨rfl, hnext⟩ := hconsumer
      have hlt := (List.getElem?_eq_some_iff.mp hnext).1
      show QueueWorld.Sound (published ++ []) (taken ++ [block]) (count + 0) _
      rw [List.append_nil]
      have hlength : (taken ++ [block]).length = taken.length + 1 := List.length_append
      refine ⟨hhead, ?_, hdropped, ?_, by omega, ?_, ?_, trivial⟩
      · rw [hlength, UInt32.ofNat_add]
        rfl
      · exact prefix_concat horder hnext
      · exact fun index found hindex => hkept index found (by omega)
      · cases producer with
        | idle => trivial
        | loadHead block => trivial
        | loadTail block head => exact hproducer
        | drop block => trivial
        | copy block head => exact ⟨hproducer.1, by omega⟩
        | storeHead block head => exact ⟨hproducer.1, by omega, hproducer.2.2⟩

end

/-- Every run keeps the queue sound. -/
theorem QueueRun.sound {zero : β} {events : List (QueueEvent β)} {world : QueueWorld β}
    (h : QueueRun zero events world) :
    world.Sound (publishedBlocks events) (takenBlocks events) (refusedBlocks events).length := by
  induction h with
  | start => exact sound_init zero
  | @step events world next event hrun hstep ih =>
      have hsplit : ∀ {γ : Type} (f : QueueEvent β → Option γ),
          (events ++ event.toList).filterMap f =
            events.filterMap f ++ event.toList.filterMap f := fun f => List.filterMap_append
      rw [publishedBlocks, takenBlocks, refusedBlocks, hsplit, hsplit, hsplit, List.length_append]
      cases hstep with
      | produce hstep => exact ih.produce hstep
      | consume hstep => exact ih.consume hstep

/-- In every interleaving, however often the counters wrap: the blocks that were taken are a prefix
of those that were published, and the others, at most eight, are in their slots. The block that the
consumer copies is the next one, the producer does not write to its slot meanwhile, and `dropped`
counts the refused blocks modulo `2 ^ 32`. -/
theorem queue_fifo {zero : β} {events : List (QueueEvent β)} {world : QueueWorld β}
    (h : QueueRun zero events world) :
    takenBlocks events <+: publishedBlocks events ∧
    (publishedBlocks events).length ≤ (takenBlocks events).length + lmRtQueueCapacity ∧
    (∀ index block, (takenBlocks events).length ≤ index →
      (publishedBlocks events)[index]? = some block →
        world.queue.blocks[slotOf (UInt32.ofNat index)] = block) ∧
    (∀ tail, world.consumer = .copy tail →
      (publishedBlocks events)[(takenBlocks events).length]? =
        some world.queue.blocks[slotOf tail] ∧
      ∀ block head, world.producer = .copy block head → slotOf head ≠ slotOf tail) ∧
    world.queue.dropped = UInt32.ofNat (refusedBlocks events).length := by
  obtain ⟨-, -, hdropped, horder, hnear, hkept, hproducer, hconsumer⟩ := h.sound
  refine ⟨horder, hnear, hkept, fun tail htail => ?_, hdropped⟩
  rw [htail] at hconsumer
  obtain ⟨rfl, hlt⟩ := hconsumer
  refine ⟨?_, fun block head hhead => ?_⟩
  · rw [hkept _ _ le_rfl (List.getElem?_eq_getElem hlt)]
    exact List.getElem?_eq_getElem hlt
  · rw [hhead] at hproducer
    obtain ⟨rfl, hroom⟩ := hproducer
    exact (slot_ne_of_lt hlt hroom).symm

/-- While the consumer copies the first block, the producer publishes a second one. -/
theorem queue_fifo_overlapping : ∃ world : QueueWorld Nat,
    QueueRun 0 [.published 5, .published 6, .took 5] world ∧
      [5] <+: [5, 6] ∧ world.queue.dropped = 0 := by
  have hfirst : QueueRun 0 [.published 5] _ :=
    (((((QueueRun.start.step (.produce (.call 5))).step (.produce (.loadHead 5))).step
      (.produce (.room (by decide)))).step (.produce (.copied 5 0))).step
      (.produce (.storeHead 5 0)))
  have hreading := ((hfirst.step (.consume .call)).step (.consume .loadTail)).step
    (.consume (.ready (by decide)))
  have hsecond := ((((hreading.step (.produce (.call 6))).step (.produce (.loadHead 6))).step
    (.produce (.room (by decide)))).step (.produce (.copied 6 1))).step (.produce (.storeHead 6 1))
  have hrun := (hsecond.step (.consume (.copied 0))).step (.consume (.storeTail 0 _))
  obtain ⟨horder, -, -, -, hdropped⟩ := queue_fifo hrun
  exact ⟨_, hrun, horder, hdropped⟩

end LatentMesh.Runtime
