import Mathlib.Data.List.Chain
import Mathlib.Data.List.Induction
import LatentMesh.Lib.Bytes
import LatentMesh.Core.Floats

/-!
# The recurrent context

`ContextState` of `context.rs`: the current checkpoint, the bounded history behind it, and the
updates and rollbacks. SHA-256 is a parameter. The history and the current checkpoint are a hash
chain after any calls (`ContextState.run_chain`): an update adds an entry to a suffix of the chain,
and a rollback leaves a prefix of it.
-/

namespace LatentMesh.Reasoning

open LatentMesh.Lib LatentMesh.Core

/-- `[u8; 32]`. -/
abbrev Hash := Vector UInt8 32

/-- `to_le_bytes`. -/
def u64Le (value : UInt64) : List UInt8 := (u64Be value).reverse

/-- `f32::to_le_bytes`. -/
def f32Le (value : F32) : List UInt8 := (u32Be value.bits).reverse

/-- The bounds of a context. -/
structure ContextCapacity where
  maxDim : Nat
  maxHistory : Nat
  deriving DecidableEq, Repr

/-- Where an entry comes from. -/
structure ProvenanceRef where
  evidenceHash : Hash
  source : String
  deriving DecidableEq, Repr

/-- An entry of the chain. -/
structure ContextCheckpoint where
  sequence : UInt64
  state : List F32
  parentHash : Hash
  resultHash : Hash
  confidence : F32
  provenance : List ProvenanceRef
  modelFingerprint : Option Hash
  adapterFingerprint : Option Hash
  deriving DecidableEq, Repr

/-- The bytes that are hashed for an optional fingerprint. -/
def fingerprintBytes (fingerprint : Option Hash) : List UInt8 :=
  (if fingerprint.isSome then 1 else 0) ::
    match fingerprint with
    | some fp => fp.toList
    | none => []

/-- `checkpoint_hash`. -/
def checkpointHash (sha256 : List UInt8 → Hash) (sequence : UInt64) (state : List F32)
    (parentHash : Hash) (confidence : F32) (provenance : List ProvenanceRef)
    (modelFingerprint adapterFingerprint : Option Hash) : Hash :=
  sha256 ("latentmesh-reasoning.context.v1".toUTF8.toList ++ u64Le sequence ++
    u64Le (UInt64.ofNat state.length) ++ state.flatMap f32Le ++ parentHash.toList ++
    f32Le confidence ++ u64Le (UInt64.ofNat provenance.length) ++
    (provenance.flatMap fun p =>
      p.evidenceHash.toList ++ u64Le (UInt64.ofNat p.source.utf8ByteSize) ++
        p.source.toUTF8.toList) ++
    fingerprintBytes modelFingerprint ++ fingerprintBytes adapterFingerprint)

/-- The hash of the fields of a checkpoint. -/
def ContextCheckpoint.contentHash (sha256 : List UInt8 → Hash) (self : ContextCheckpoint) : Hash :=
  checkpointHash sha256 self.sequence self.state self.parentHash self.confidence self.provenance
    self.modelFingerprint self.adapterFingerprint

/-- Why a call fails. -/
inductive ContextError where
  | capacityExceeded (len maxDim : Nat)
  | nonFinite
  | confidenceOutOfRange (confidence : F32)
  | emptyHistory
  | unknownCheckpoint (resultHash : Hash)
  deriving DecidableEq, Repr

/-- A context: the entries it keeps, its history and the next sequence number. -/
structure ContextState where
  capacity : ContextCapacity
  current : ContextCheckpoint
  /-- Oldest first. -/
  history : List ContextCheckpoint
  nextSequence : UInt64
  deriving DecidableEq, Repr

/-- The loop that drops the oldest checkpoints. -/
def evict (maxHistory : Nat) : List ContextCheckpoint → List ContextCheckpoint
  | [] => []
  | oldest :: history =>
      if maxHistory < (oldest :: history).length then evict maxHistory history
      else oldest :: history

namespace ContextState

variable (sha256 : List UInt8 → Hash) (ops : FloatOps)

/-- `ContextState::genesis`. -/
def genesis (capacity : ContextCapacity) (dim : Nat) : Except ContextError ContextState :=
  if capacity.maxDim < dim then .error (.capacityExceeded dim capacity.maxDim)
  else
    let state := List.replicate dim F32.zero
    let parentHash := Vector.replicate 32 0
    .ok
      { capacity
        current :=
          { sequence := 0
            state
            parentHash
            resultHash := checkpointHash sha256 0 state parentHash .one [] none none
            confidence := .one
            provenance := []
            modelFingerprint := none
            adapterFingerprint := none }
        history := []
        nextSequence := 1 }

/-- What `update` is called with. -/
structure Evidence where
  newState : List F32
  confidence : F32
  provenance : List ProvenanceRef
  modelFingerprint : Option Hash
  adapterFingerprint : Option Hash
  deriving DecidableEq, Repr

/-- The checkpoint that an update makes. -/
def derive (self : ContextState) (evidence : Evidence) : ContextCheckpoint where
  sequence := self.nextSequence
  state := evidence.newState
  parentHash := self.current.resultHash
  resultHash := checkpointHash sha256 self.nextSequence evidence.newState self.current.resultHash
    evidence.confidence evidence.provenance evidence.modelFingerprint evidence.adapterFingerprint
  confidence := evidence.confidence
  provenance := evidence.provenance
  modelFingerprint := evidence.modelFingerprint
  adapterFingerprint := evidence.adapterFingerprint

/-- The state after an update that is accepted. -/
def absorb (self : ContextState) (evidence : Evidence) : ContextState :=
  { self with
    current := self.derive sha256 evidence
    history :=
      if self.capacity.maxHistory = 0 then []
      else evict self.capacity.maxHistory (self.history ++ [self.current])
    nextSequence := self.nextSequence + 1 }

/-- `update`. There is no state after an addition that overflows, which panics. -/
def update (self : ContextState) (evidence : Evidence) :
    Option (ContextState × Except ContextError ContextCheckpoint) :=
  if self.capacity.maxDim < evidence.newState.length then
    some (self, .error (.capacityExceeded evidence.newState.length self.capacity.maxDim))
  else if ¬ evidence.newState.all F32.isFinite then some (self, .error .nonFinite)
  else if ¬ evidence.confidence.isFinite ∨
      ¬ (ops.le .zero evidence.confidence ∧ ops.le evidence.confidence .one) then
    some (self, .error (.confidenceOutOfRange evidence.confidence))
  else if self.nextSequence.toNat + 1 < 2 ^ 64 then
    some (self.absorb sha256 evidence, .ok (self.derive sha256 evidence))
  else none

/-- `rollback`. -/
def rollback (self : ContextState) : ContextState × Except ContextError ContextCheckpoint :=
  match self.history.getLast? with
  | none => (self, .error .emptyHistory)
  | some previous =>
      ({ self with current := previous, history := self.history.dropLast }, .ok previous)

/-- `rollback_to`. There is no state after an index that is out of bounds, which panics. -/
def rollbackTo (self : ContextState) (resultHash : Hash) :
    Option (ContextState × Except ContextError ContextCheckpoint) :=
  if self.current.resultHash = resultHash then some (self, .ok self.current)
  else
    match self.history.findIdx? fun c => c.resultHash = resultHash with
    | none => some (self, .error (.unknownCheckpoint resultHash))
    | some idx =>
        match self.history.drop idx with
        | [] => none
        | restored :: _ =>
            some ({ self with current := restored, history := self.history.take idx },
              .ok restored)

/-- The calls on a context. -/
inductive Call where
  | update (evidence : Evidence)
  | rollback
  | rollbackTo (resultHash : Hash)
  deriving DecidableEq, Repr

/-- A call. There is no result where a counter would overflow. -/
def apply (self : ContextState) :
    Call → Option (ContextState × Except ContextError ContextCheckpoint)
  | .update evidence => self.update sha256 ops evidence
  | .rollback => some self.rollback
  | .rollbackTo resultHash => self.rollbackTo resultHash

/-- The state after the calls, whether they succeed or fail. -/
def run (self : ContextState) (calls : List Call) : Option ContextState :=
  calls.foldlM (fun state call => (state.apply sha256 ops call).map Prod.fst) self

end ContextState

/-! ## The chain -/

/-- The entries are a hash chain with increasing sequences below the next one. -/
structure Chain (sha256 : List UInt8 → Hash) (entries : List ContextCheckpoint)
    (nextSequence : UInt64) : Prop where
  increasing : entries.Pairwise fun earlier later => earlier.sequence < later.sequence
  below : ∀ entry ∈ entries, entry.sequence < nextSequence
  linked : entries.IsChain fun previous entry => entry.parentHash = previous.resultHash
  hashed : ∀ entry ∈ entries, entry.resultHash = entry.contentHash sha256

section

variable {sha256 : List UInt8 → Hash} {entries part : List ContextCheckpoint}
  {entry : ContextCheckpoint} {nextSequence : UInt64}

/-- A part of a chain is a chain. -/
theorem Chain.infix (h : Chain sha256 entries nextSequence) (hpart : part <:+: entries) :
    Chain sha256 part nextSequence where
  increasing := h.increasing.sublist hpart.sublist
  below := fun entry hmem => h.below entry (hpart.subset hmem)
  linked := h.linked.infix hpart
  hashed := fun entry hmem => h.hashed entry (hpart.subset hmem)

/-- A chain grows by an entry that is derived from its last one. -/
theorem Chain.concat (h : Chain sha256 entries nextSequence)
    (hsequence : entry.sequence = nextSequence)
    (hparent : ∀ previous ∈ entries.getLast?, entry.parentHash = previous.resultHash)
    (hresult : entry.resultHash = entry.contentHash sha256)
    (hroom : nextSequence.toNat + 1 < 2 ^ 64) :
    Chain sha256 (entries ++ [entry]) (nextSequence + 1) := by
  have hnext : nextSequence < nextSequence + 1 := by
    rw [UInt64.lt_iff_toNat_lt, UInt64.toNat_add, UInt64.toNat_one, Nat.mod_eq_of_lt hroom]
    exact Nat.lt_succ_self _
  refine ⟨?_, ?_, ?_, ?_⟩
  · refine List.pairwise_append.mpr ⟨h.increasing, List.pairwise_singleton _ _, ?_⟩
    intro earlier hmem later hlater
    rw [List.mem_singleton.mp hlater, hsequence]
    exact h.below earlier hmem
  · refine List.forall_mem_append.mpr ⟨fun other hmem => ?_, ?_⟩
    · exact UInt64.lt_trans (h.below other hmem) hnext
    · rw [List.forall_mem_singleton, hsequence]
      exact hnext
  · refine h.linked.append (List.isChain_singleton entry) ?_
    intro previous hprevious next hnext
    cases hnext
    exact hparent previous hprevious
  · exact List.forall_mem_append.mpr ⟨h.hashed, List.forall_mem_singleton.mpr hresult⟩

end

/-- What is left is the newest part of the history. -/
theorem evict_eq (maxHistory : Nat) (history : List ContextCheckpoint) :
    evict maxHistory history = history.drop (history.length - maxHistory) := by
  induction history with
  | nil => rw [evict, List.drop_nil]
  | cons oldest history ih =>
      rw [evict, List.length_cons]
      split
      · rename_i hfull
        rw [ih, Nat.succ_sub (Nat.le_of_lt_succ hfull), List.drop_succ_cons]
      · rename_i hroom
        rw [Nat.sub_eq_zero_of_le (Nat.not_lt.mp hroom), List.drop_zero]

namespace ContextState

variable {sha256 : List UInt8 → Hash} {ops : FloatOps} {state next : ContextState}
  {evidence : Evidence} {result : Except ContextError ContextCheckpoint} {resultHash : Hash}

/-- What an update does: it is refused and changes nothing, or it is absorbed. -/
theorem update_cases (h : state.update sha256 ops evidence = some (next, result)) :
    (next = state ∧ ∃ error, result = .error error) ∨
      (state.nextSequence.toNat + 1 < 2 ^ 64 ∧ next = state.absorb sha256 evidence ∧
        result = .ok (state.derive sha256 evidence)) := by
  unfold update at h
  split at h
  · cases h
    exact Or.inl ⟨rfl, _, rfl⟩
  split at h
  · cases h
    exact Or.inl ⟨rfl, _, rfl⟩
  split at h
  · cases h
    exact Or.inl ⟨rfl, _, rfl⟩
  split at h
  · rename_i hroom
    cases h
    exact Or.inr ⟨hroom, rfl, rfl⟩
  · cases h

/-- What a rollback does: it fails and changes nothing, or it restores the newest checkpoint of the
history. -/
theorem rollback_cases (state : ContextState) :
    (state.history = [] ∧ state.rollback = (state, .error .emptyHistory)) ∨
      ∃ older previous, state.history = older ++ [previous] ∧
        state.rollback = ({ state with current := previous, history := older }, .ok previous) := by
  unfold rollback
  rcases List.eq_nil_or_concat state.history with hempty | ⟨older, previous, hhistory⟩
  · rw [hempty]
    exact Or.inl ⟨rfl, rfl⟩
  · rw [List.concat_eq_append] at hhistory
    refine Or.inr ⟨older, previous, hhistory, ?_⟩
    rw [hhistory, List.getLast?_concat, List.dropLast_concat]

/-- What a rollback to a checkpoint does: it fails and changes nothing, it finds the checkpoint
current, or it restores it from the history. -/
theorem rollback_to_cases (state : ContextState) (resultHash : Hash) :
    (∃ error, state.rollbackTo resultHash = some (state, .error error)) ∨
      state.rollbackTo resultHash = some (state, .ok state.current) ∨
      ∃ older restored newer, state.history = older ++ restored :: newer ∧
        state.rollbackTo resultHash =
          some ({ state with current := restored, history := older }, .ok restored) := by
  unfold rollbackTo
  split
  · exact Or.inr (Or.inl rfl)
  · cases hfind : state.history.findIdx? fun c => c.resultHash = resultHash with
    | none => exact Or.inl ⟨_, rfl⟩
    | some idx =>
        obtain ⟨hlt, -⟩ := List.findIdx?_eq_some_iff_getElem.mp hfind
        dsimp only
        rw [List.drop_eq_getElem_cons hlt]
        refine Or.inr (Or.inr ⟨_, _, state.history.drop (idx + 1), ?_, rfl⟩)
        rw [← List.drop_eq_getElem_cons hlt, List.take_append_drop]

/-- The history and the current checkpoint behind it. -/
def entries (self : ContextState) : List ContextCheckpoint := self.history ++ [self.current]

/-- An update adds an entry at the end and may drop some at the front. -/
theorem absorb_entries_suffix (state : ContextState) (evidence : Evidence) :
    (state.absorb sha256 evidence).entries <:+
      state.entries ++ [state.derive sha256 evidence] := by
  unfold absorb entries
  dsimp only
  split
  · exact List.suffix_append _ _
  · rw [evict_eq]
    exact List.suffix_append_self_iff.mpr (List.drop_suffix _ _)

/-- The history stays within its bound. -/
theorem absorb_history_length (state : ContextState) (evidence : Evidence) :
    (state.absorb sha256 evidence).history.length ≤ state.capacity.maxHistory := by
  unfold absorb
  dsimp only
  split
  · exact Nat.zero_le _
  · rw [evict_eq, List.length_drop]
    omega

/-- With a history the checkpoint before an update is the newest one in it. -/
theorem absorb_history_last (hhistory : 1 ≤ state.capacity.maxHistory) :
    ∃ older, (state.absorb sha256 evidence).history = older ++ [state.current] := by
  unfold absorb
  dsimp only
  rw [if_neg (Nat.ne_of_gt hhistory), evict_eq, List.length_append, List.length_singleton]
  exact ⟨_, List.drop_append_of_le_length (by omega)⟩

/-- The invariant. -/
structure Sound (sha256 : List UInt8 → Hash) (capacity : ContextCapacity)
    (state : ContextState) : Prop where
  capacity_eq : state.capacity = capacity
  chain : Chain sha256 state.entries state.nextSequence
  bounded : state.history.length ≤ capacity.maxHistory

variable {capacity : ContextCapacity} {call : Call} {start : ContextState} {dim : Nat}

/-- A new context is sound and counts from one. -/
theorem genesis_sound (h : genesis sha256 capacity dim = .ok start) :
    Sound sha256 capacity start ∧ start.nextSequence = 1 := by
  unfold genesis at h
  split at h
  · cases h
  · cases h
    refine ⟨⟨rfl, ⟨List.pairwise_singleton _ _, ?_, List.isChain_singleton _, ?_⟩,
      Nat.zero_le _⟩, rfl⟩
    · refine List.forall_mem_singleton.mpr ?_
      show (0 : UInt64) < 1
      decide
    · exact List.forall_mem_singleton.mpr rfl

/-- Restoring a checkpoint of the history leaves a prefix of the chain. -/
theorem Sound.restore (h : Sound sha256 capacity state) {older newer : List ContextCheckpoint}
    {restored : ContextCheckpoint} (hhistory : state.history = older ++ restored :: newer) :
    Sound sha256 capacity { state with current := restored, history := older } := by
  have hbounded := h.bounded
  rw [hhistory, List.length_append] at hbounded
  refine ⟨h.capacity_eq, h.chain.infix (List.IsPrefix.isInfix ⟨newer ++ [state.current], ?_⟩),
    Nat.le_trans (Nat.le_add_right _ _) hbounded⟩
  show older ++ [restored] ++ (newer ++ [state.current]) = state.history ++ [state.current]
  rw [hhistory, List.append_assoc, List.append_assoc, List.singleton_append, List.cons_append]

/-- An update keeps a context sound. -/
theorem Sound.absorb (h : Sound sha256 capacity state)
    (hroom : state.nextSequence.toNat + 1 < 2 ^ 64) (evidence : Evidence) :
    Sound sha256 capacity (state.absorb sha256 evidence) := by
  have hchain : Chain sha256 (state.entries ++ [state.derive sha256 evidence])
      (state.nextSequence + 1) := by
    refine h.chain.concat rfl (fun previous hprevious => ?_) rfl hroom
    rw [entries, List.getLast?_concat] at hprevious
    cases hprevious
    rfl
  have hlength := @absorb_history_length sha256 state evidence
  rw [h.capacity_eq] at hlength
  exact ⟨h.capacity_eq, hchain.infix (state.absorb_entries_suffix evidence).isInfix, hlength⟩

/-- Every call keeps the invariant, and the sequences advance by one at most. -/
theorem Sound.apply (h : Sound sha256 capacity state)
    (hcall : state.apply sha256 ops call = some (next, result)) :
    Sound sha256 capacity next ∧ next.nextSequence.toNat ≤ state.nextSequence.toNat + 1 := by
  cases call with
  | update evidence =>
      rcases update_cases hcall with ⟨rfl, -⟩ | ⟨hroom, rfl, -⟩
      · exact ⟨h, Nat.le_succ _⟩
      · refine ⟨h.absorb hroom evidence, ?_⟩
        show (state.nextSequence + 1).toNat ≤ _
        rw [UInt64.toNat_add, UInt64.toNat_one, Nat.mod_eq_of_lt hroom]
  | rollback =>
      rcases rollback_cases state with ⟨-, hrollback⟩ | ⟨older, previous, hhistory, hrollback⟩
      · rw [apply, hrollback] at hcall
        cases hcall
        exact ⟨h, Nat.le_succ _⟩
      · rw [apply, hrollback] at hcall
        cases hcall
        exact ⟨h.restore hhistory, Nat.le_succ _⟩
  | rollbackTo resultHash =>
      rcases rollback_to_cases state resultHash with ⟨error, hrollback⟩ | hrollback |
        ⟨older, restored, newer, hhistory, hrollback⟩
      · rw [apply, hrollback] at hcall
        cases hcall
        exact ⟨h, Nat.le_succ _⟩
      · rw [apply, hrollback] at hcall
        cases hcall
        exact ⟨h, Nat.le_succ _⟩
      · rw [apply, hrollback] at hcall
        cases hcall
        exact ⟨h.restore hhistory, Nat.le_succ _⟩

/-- A call that fails leaves the state as it is. -/
theorem apply_error {error : ContextError}
    (h : state.apply sha256 ops call = some (next, .error error)) : next = state := by
  cases call with
  | update evidence =>
      rcases update_cases h with ⟨hsame, -⟩ | ⟨-, -, hok⟩
      · exact hsame
      · cases hok
  | rollback =>
      rcases rollback_cases state with ⟨-, hrollback⟩ | ⟨_, _, -, hrollback⟩ <;>
        rw [apply, hrollback] at h <;> cases h
      rfl
  | rollbackTo resultHash =>
      rcases rollback_to_cases state resultHash with ⟨_, hrollback⟩ | hrollback |
        ⟨_, _, _, -, hrollback⟩ <;> rw [apply, hrollback] at h <;> cases h
      rfl

/-- A rollback undoes an update. -/
theorem rollback_update {checkpoint : ContextCheckpoint}
    (hhistory : 1 ≤ state.capacity.maxHistory)
    (h : state.update sha256 ops evidence = some (next, .ok checkpoint)) :
    next.rollback.2 = .ok state.current ∧ next.rollback.1.current = state.current := by
  rcases update_cases h with ⟨-, error, herror⟩ | ⟨-, rfl, -⟩
  · cases herror
  · obtain ⟨older, hlast⟩ := @absorb_history_last sha256 state evidence hhistory
    rcases rollback_cases (state.absorb sha256 evidence) with
      ⟨hempty, -⟩ | ⟨_, previous, hprevious, hrollback⟩
    · rw [hlast] at hempty
      cases List.append_ne_nil_of_right_ne_nil _ (List.cons_ne_nil _ _) hempty
    · rw [hlast] at hprevious
      obtain ⟨-, hprevious⟩ := List.append_inj' hprevious rfl
      cases hprevious
      rw [hrollback]
      exact ⟨rfl, rfl⟩

/-- A call has a result as long as the sequence number has room. -/
theorem apply_is_some (state : ContextState) (call : Call)
    (hroom : state.nextSequence.toNat + 1 < 2 ^ 64) :
    (state.apply sha256 ops call).isSome = true := by
  cases call with
  | update evidence =>
      show (state.update sha256 ops evidence).isSome = true
      unfold update
      rw [if_pos hroom]
      split_ifs <;> rfl
  | rollback => rfl
  | rollbackTo resultHash =>
      show (state.rollbackTo resultHash).isSome = true
      rcases rollback_to_cases state resultHash with ⟨_, h⟩ | h | ⟨_, _, _, -, h⟩ <;> rw [h] <;> rfl

/-- The law of a run. -/
structure Law (sha256 : List UInt8 → Hash) (ops : FloatOps) (capacity : ContextCapacity)
    (state : ContextState) : Prop where
  chain : Chain sha256 (state.history ++ [state.current]) state.nextSequence
  bounded : state.history.length ≤ capacity.maxHistory
  failed : ∀ call next error, state.apply sha256 ops call = some (next, .error error) →
    next = state
  undone : 1 ≤ capacity.maxHistory → ∀ evidence next checkpoint,
    state.update sha256 ops evidence = some (next, .ok checkpoint) →
      next.rollback.2 = .ok state.current ∧ next.rollback.1.current = state.current

/-- A sound context obeys the law of the chain. -/
theorem Sound.law (h : Sound sha256 capacity state) : Law sha256 ops capacity state where
  chain := h.chain
  bounded := h.bounded
  failed := fun _ _ _ => apply_error
  undone := fun hhistory _ _ _ => rollback_update (by rw [h.capacity_eq]; exact hhistory)

/-- A run begins with its first call. -/
theorem run_cons (start : ContextState) (call : Call) (calls : List Call) :
    start.run sha256 ops (call :: calls) =
      ((start.apply sha256 ops call).map Prod.fst).bind fun next => next.run sha256 ops calls :=
  List.foldlM_cons

/-- The invariant over a run. -/
theorem Sound.run {calls : List Call} (h : Sound sha256 capacity start)
    (hrun : start.run sha256 ops calls = some state) : Sound sha256 capacity state := by
  induction calls generalizing start with
  | nil =>
      cases hrun
      exact h
  | cons call calls ih =>
      rw [run_cons] at hrun
      obtain ⟨next, hnext, hrun⟩ := Option.bind_eq_some_iff.mp hrun
      obtain ⟨⟨_, result⟩, hcall, rfl⟩ := Option.map_eq_some_iff.mp hnext
      exact ih (h.apply hcall).1 hrun

/-- A run panics only after it has used up the sequence numbers. -/
theorem Sound.run_is_some {calls : List Call} (h : Sound sha256 capacity start)
    (hroom : start.nextSequence.toNat + calls.length < 2 ^ 64) :
    (start.run sha256 ops calls).isSome = true := by
  induction calls generalizing start with
  | nil => rfl
  | cons call calls ih =>
      rw [List.length_cons] at hroom
      obtain ⟨⟨next, result⟩, hcall⟩ := Option.isSome_iff_exists.mp
        (@apply_is_some sha256 ops start call (by omega))
      obtain ⟨hnext, hle⟩ := h.apply hcall
      rw [run_cons, hcall]
      refine ih hnext ?_
      show next.nextSequence.toNat + calls.length < 2 ^ 64
      omega

/-- After any calls the context is a hash chain, and what a call does from there. -/
theorem run_chain (sha256 : List UInt8 → Hash) (ops : FloatOps) (capacity : ContextCapacity)
    (dim : Nat) (start : ContextState) (hgenesis : genesis sha256 capacity dim = .ok start)
    (calls : List Call) :
    (calls.length + 1 < 2 ^ 64 → (start.run sha256 ops calls).isSome = true) ∧
      ∀ state, start.run sha256 ops calls = some state → Law sha256 ops capacity state := by
  obtain ⟨hsound, hone⟩ := genesis_sound hgenesis
  refine ⟨fun hroom => hsound.run_is_some ?_, fun state hrun => (hsound.run hrun).law⟩
  rw [hone, UInt64.toNat_one]
  omega

/-- SHA-256 on the two checkpoints of the sample, which are told apart by the length of what is
hashed. -/
def sampleSha256 (bytes : List UInt8) : Hash :=
  if bytes.length = 93 then
    #v[0x1a, 0x12, 0x8b, 0xec, 0x53, 0x73, 0x49, 0x2c,
    0x80, 0x38, 0xf2, 0x97, 0xca, 0xe1, 0xf1, 0x85,
    0xc6, 0xc7, 0xaf, 0x0d, 0xd3, 0x8c, 0x6e, 0x55,
    0x3f, 0x8e, 0x39, 0xb2, 0xae, 0xf7, 0x0a, 0x59]
  else
    #v[0x00, 0xc1, 0xfb, 0xcd, 0xb7, 0x88, 0x0d, 0xe5,
    0x40, 0x06, 0x6b, 0xc6, 0x05, 0x22, 0x90, 0xd8,
    0x36, 0xcf, 0x7f, 0x81, 0x47, 0x28, 0x24, 0x3b,
    0x47, 0xca, 0x92, 0xcc, 0x0e, 0x75, 0x68, 0x7d]

/-- The order of the floats that are not negative is that of their bits. -/
def sampleOps : FloatOps where
  add := fun a _ => a
  sub := fun a _ => a
  mul := fun a _ => a
  div := fun a _ => a
  min := fun a b => if a.bits ≤ b.bits then a else b
  lt := fun a b => a.bits < b.bits
  le := fun a b => a.bits ≤ b.bits
  ofNat := fun _ => .zero
  fixed3 := fun _ => ""

/-- Evidence of one number. -/
def sampleEvidence : Evidence := ⟨[.one], .one, [], none, none⟩

/-- The theorem at an update that is rolled back. -/
theorem run_chain_sample : ∃ start state, genesis sampleSha256 ⟨4, 2⟩ 0 = .ok start ∧
    start.run sampleSha256 sampleOps [.update sampleEvidence, .rollback] = some state ∧
      state.nextSequence = 2 ∧ Law sampleSha256 sampleOps ⟨4, 2⟩ state := by
  refine ⟨_, _, rfl, rfl, rfl, ?_⟩
  exact (run_chain _ _ _ 0 _ rfl [.update sampleEvidence, .rollback]).2 _ rfl

end ContextState

end LatentMesh.Reasoning
