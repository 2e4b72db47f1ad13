import LatentMesh.AirCore.Wire
import LatentMesh.Lib.Chunks

/-!
# Fragments and reassembly

The fragmenter and the reassembly table of `fragment.rs`. `Reassembler.push` returns the table after
a frame and what the frame completes.
-/

namespace LatentMesh.AirCore

open LatentMesh.Lib

/-- What the frames of one message have in common. -/
structure FragmentMeta where
  profile : WireProfile
  flags : FrameFlags
  streamId : UInt16
  sequence : UInt16
  semanticClass : SemanticClass
  priority : UInt8
  stateTag : UInt16
  deriving DecidableEq, Repr

/-- The frame that `fragment_message` pushes for one payload. -/
def FragmentMeta.frame (self : FragmentMeta) (index count : UInt8) (payload : List UInt8) :
    SparseRadioFrame where
  profile := self.profile
  flags := self.flags
  streamId := self.streamId
  sequence := self.sequence
  fragmentIndex := index
  fragmentCount := count
  semanticClass := self.semanticClass
  priority := self.priority
  stateTag := self.stateTag
  payload := payload

/-- `fragment_message`. -/
def fragmentMessage (info : FragmentMeta) (message : List UInt8) (frameMtu : Nat) :
    Result (List SparseRadioFrame) :=
  if ¬ (frameMinBytes ≤ frameMtu ∧ frameMtu ≤ frameMaxBytes) then .error .invalidLength
  else if maxMessageBytes < message.length then .error .limitExceeded
  else
    let payloadCapacity := frameMtu - frameMinBytes
    if payloadCapacity = 0 ∧ ¬ message.isEmpty then .error .invalidLength
    else
      let count := if message.isEmpty then 1 else divCeil message.length payloadCapacity
      if maxFragments.toNat < count then .error .limitExceeded
      else if message.isEmpty then .ok [info.frame 0 1 []]
      else .ok ((chunks payloadCapacity message).mapIdx fun index payload =>
        info.frame (UInt8.ofNat index) (UInt8.ofNat count) payload)

/-! ## Reassembly -/

/-- The bounds of a reassembler. -/
structure ReassemblerConfig where
  maxContexts : Nat
  maxMessageBytes : Nat
  maxFragments : UInt8
  deriving DecidableEq, Repr

/-- `ReassemblerConfig::default`. -/
def ReassemblerConfig.default : ReassemblerConfig where
  maxContexts := 4
  maxMessageBytes := AirCore.maxMessageBytes
  maxFragments := AirCore.maxFragments

/-- A message with the metadata of its frames. -/
structure ReassembledMessage extends FragmentMeta where
  bytes : List UInt8
  deriving DecidableEq, Repr

/-- The fragments of one message that have arrived. -/
structure Context extends FragmentMeta where
  totalBytes : Nat
  parts : List (Option (List UInt8))
  deriving DecidableEq, Repr

namespace Context

/-- The context that `push` creates for a frame. -/
def ofFrame (frame : SparseRadioFrame) : Context where
  profile := frame.profile
  flags := frame.flags
  streamId := frame.streamId
  sequence := frame.sequence
  semanticClass := frame.semanticClass
  priority := frame.priority
  stateTag := frame.stateTag
  totalBytes := 0
  parts := List.replicate frame.fragmentCount.toNat none

/-- The context is the one of a message. -/
def isFor (self : Context) (streamId sequence : UInt16) : Bool :=
  self.streamId == streamId && self.sequence == sequence

/-- The frame disagrees with the first one of its message. -/
def conflicts (self : Context) (frame : SparseRadioFrame) : Prop :=
  self.profile ≠ frame.profile ∨ self.flags ≠ frame.flags ∨
    self.semanticClass ≠ frame.semanticClass ∨ self.priority ≠ frame.priority ∨
    self.stateTag ≠ frame.stateTag ∨ self.parts.length ≠ frame.fragmentCount.toNat

instance (self : Context) (frame : SparseRadioFrame) : Decidable (self.conflicts frame) :=
  inferInstanceAs (Decidable (_ ∨ _))

/-- The context with the payload of a frame stored. -/
def store (self : Context) (frame : SparseRadioFrame) : Context :=
  { self with
    totalBytes := self.totalBytes + frame.payload.length
    parts := self.parts.set frame.fragmentIndex.toNat (some frame.payload) }

/-- The loop that joins the parts of a complete message. -/
def joinParts : List (Option (List UInt8)) → Result (List UInt8)
  | [] => .ok []
  | none :: _ => .error .invalidFragment
  | some part :: rest => (joinParts rest).bind fun bytes => .ok (part ++ bytes)

/-- The message of a context that has all parts. -/
def message (self : Context) : Result ReassembledMessage :=
  (joinParts self.parts).bind fun bytes => .ok { toFragmentMeta := self.toFragmentMeta, bytes }

end Context

/-- `Vec::swap_remove`. -/
def swapRemove {α : Type} (items : List α) (index : Nat) : List α :=
  match items.getLast? with
  | none => []
  | some last => (items.set index last).dropLast

/-- Fixed-count reassembly table. -/
structure Reassembler where
  config : ReassemblerConfig
  contexts : List Context
  deriving DecidableEq, Repr

namespace Reassembler

/-- `Reassembler::new`. -/
def new (config : ReassemblerConfig) : Result Reassembler :=
  if config.maxContexts = 0 ∨ config.maxMessageBytes = 0 ∨
      AirCore.maxMessageBytes < config.maxMessageBytes ∨ config.maxFragments = 0 ∨
      AirCore.maxFragments < config.maxFragments then .error .invalidLength
  else .ok { config, contexts := [] }

/-- `Reassembler::has_in_flight`. -/
def hasInFlight (self : Reassembler) (streamId sequence : UInt16) : Bool :=
  self.contexts.any fun context => context.isFor streamId sequence

/-- `iter().position(..)`: the index of the context of a message. -/
def position (self : Reassembler) (streamId sequence : UInt16) : Option Nat :=
  self.contexts.findIdx? fun context => context.isFor streamId sequence

/-- `Reassembler::clear`. -/
def clear (self : Reassembler) (streamId sequence : UInt16) : Reassembler :=
  match self.position streamId sequence with
  | some index => { self with contexts := swapRemove self.contexts index }
  | none => self

/-- The part of `push` that works on the context at an index. -/
def pushAt (self : Reassembler) (index : Nat) (context : Context) (frame : SparseRadioFrame) :
    Reassembler × Result (Option ReassembledMessage) :=
  if context.conflicts frame then (self, .error .fragmentConflict)
  else
    match context.parts.getD frame.fragmentIndex.toNat none with
    | some existing =>
        if existing = frame.payload then (self, .ok none) else (self, .error .fragmentConflict)
    | none =>
        if self.config.maxMessageBytes < context.totalBytes + frame.payload.length then
          (self, .error .limitExceeded)
        else
          let context := context.store frame
          let contexts := self.contexts.set index context
          if context.parts.any Option.isNone then ({ self with contexts }, .ok none)
          else ({ self with contexts := swapRemove contexts index }, context.message.map some)

/-- `Reassembler::push`. -/
def push (self : Reassembler) (frame : SparseRadioFrame) :
    Reassembler × Result (Option ReassembledMessage) :=
  match frame.validate with
  | .error error => (self, .error error)
  | .ok () =>
      if self.config.maxFragments < frame.fragmentCount then (self, .error .limitExceeded)
      else
        match self.position frame.streamId frame.sequence with
        | some index => self.pushAt index (self.contexts.getD index (.ofFrame frame)) frame
        | none =>
            if self.contexts.length = self.config.maxContexts then (self, .error .reassemblyFull)
            else
              let context := Context.ofFrame frame
              { self with contexts := self.contexts ++ [context] }.pushAt self.contexts.length
                context frame

end Reassembler

end LatentMesh.AirCore
