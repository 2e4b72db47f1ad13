import LatentMesh.Lib.Table

/-!
# The observer queue

The single-producer single-consumer queue of `runtime.c`. A call of `lm_rt_publish` or `lm_rt_take`
is a sequence of program points, and a step takes it from one point to the next: it loads an index,
works on a block, or stores an index. Copying a block takes several steps. While the producer
copies, the slot may hold anything.
-/

namespace LatentMesh.Runtime

open LatentMesh.Lib

/-- `LM_RT_QUEUE_CAPACITY`. -/
def lmRtQueueCapacity : Nat := 8

/-- `lm_rt_queue_t`. -/
structure LmRtQueue (β : Type) where
  blocks : Vector β lmRtQueueCapacity
  head : UInt32
  tail : UInt32
  dropped : UInt32

/-- The slot of an index. -/
def slotOf (index : UInt32) : Fin lmRtQueueCapacity :=
  ⟨(index % 8).toNat, UInt32.mod_lt index (by decide)⟩

/-- The queue that `lm_rt_init` sets up, with zeroed blocks. -/
def LmRtQueue.init {β : Type} (zero : β) : LmRtQueue β where
  blocks := Vector.replicate lmRtQueueCapacity zero
  head := 0
  tail := 0
  dropped := 0

/-- What a call that returns did. -/
inductive QueueEvent (β : Type) where
  | published (block : β)
  | refused (block : β)
  | took (block : β)
  | empty

/-! ## Publishing -/

/-- Where the producer is in `lm_rt_publish`. -/
inductive PublishPoint (β : Type) where
  | idle
  | loadHead (block : β)
  | loadTail (block : β) (head : UInt32)
  | drop (block : β)
  | copy (block : β) (head : UInt32)
  | storeHead (block : β) (head : UInt32)

/-- A step of `lm_rt_publish`, with what the call did when it is the last one. -/
inductive PublishStep {β : Type} (queue : LmRtQueue β) :
    PublishPoint β → LmRtQueue β → PublishPoint β → Option (QueueEvent β) → Prop where
  | call (block : β) : PublishStep queue .idle queue (.loadHead block) none
  | loadHead (block : β) :
      PublishStep queue (.loadHead block) queue (.loadTail block queue.head) none
  | full {block : β} {head : UInt32} (hfull : 8 ≤ head - queue.tail) :
      PublishStep queue (.loadTail block head) queue (.drop block) none
  | room {block : β} {head : UInt32} (hroom : ¬ 8 ≤ head - queue.tail) :
      PublishStep queue (.loadTail block head) queue (.copy block head) none
  | drop (block : β) :
      PublishStep queue (.drop block) { queue with dropped := queue.dropped + 1 } .idle
        (some (.refused block))
  -- the block is copied in pieces of any size
  | copying (block partly : β) (head : UInt32) :
      PublishStep queue (.copy block head)
        { queue with blocks := queue.blocks.set (slotOf head) partly (slotOf head).isLt }
        (.copy block head) none
  | copied (block : β) (head : UInt32) :
      PublishStep queue (.copy block head)
        { queue with blocks := queue.blocks.set (slotOf head) block (slotOf head).isLt }
        (.storeHead block head) none
  | storeHead (block : β) (head : UInt32) :
      PublishStep queue (.storeHead block head) { queue with head := head + 1 } .idle
        (some (.published block))

/-! ## Taking -/

/-- Where the consumer is in `lm_rt_take`. -/
inductive TakePoint (β : Type) where
  | idle
  | loadTail
  | loadHead (tail : UInt32)
  | copy (tail : UInt32)
  | storeTail (tail : UInt32) (block : β)

/-- A step of `lm_rt_take`, with what the call did when it is the last one. -/
inductive TakeStep {β : Type} (queue : LmRtQueue β) :
    TakePoint β → LmRtQueue β → TakePoint β → Option (QueueEvent β) → Prop where
  | call : TakeStep queue .idle queue .loadTail none
  | loadTail : TakeStep queue .loadTail queue (.loadHead queue.tail) none
  | empty {tail : UInt32} (hempty : queue.head = tail) :
      TakeStep queue (.loadHead tail) queue .idle (some .empty)
  | ready {tail : UInt32} (hready : queue.head ≠ tail) :
      TakeStep queue (.loadHead tail) queue (.copy tail) none
  | copied (tail : UInt32) :
      TakeStep queue (.copy tail) queue (.storeTail tail (queue.blocks.get (slotOf tail))) none
  | storeTail (tail : UInt32) (block : β) :
      TakeStep queue (.storeTail tail block) { queue with tail := tail + 1 } .idle
        (some (.took block))

end LatentMesh.Runtime
