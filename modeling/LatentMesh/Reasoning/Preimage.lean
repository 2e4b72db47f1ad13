import LatentMesh.Lib.PrefixCode
import LatentMesh.Lib.Utf8
import LatentMesh.Reasoning.Context

/-!
# The preimage of a checkpoint

`checkpoint_hash` hashes the fields of a checkpoint behind each other, a list behind its length and
a fingerprint behind a flag. The fields can be told from the bytes (`checkpoint_preimage_eq_iff`).
So the result hash of a checkpoint tells the chain behind it, unless two entries collide
(`Chain.lineage`).
-/

namespace LatentMesh.Reasoning

open LatentMesh.Lib LatentMesh.Core

/-! ## The codes of the fields -/

/-- The eight bytes of a word tell it. -/
theorem u64_le_injective : Function.Injective u64Le := by
  intro first second h
  have hread := congrArg u64OfBe (List.reverse_injective h)
  rwa [u64_of_be_u64_be, u64_of_be_u64_be] at hread

/-- The four bytes of a float tell its bits. -/
theorem f32_le_injective : Function.Injective f32Le := by
  rintro ⟨first⟩ ⟨second⟩ h
  have hread := congrArg u32OfBe (List.reverse_injective h)
  rw [u32_of_be_u32_be, u32_of_be_u32_be] at hread
  exact congrArg F32.mk hread

/-- No word is written as the start of another. -/
theorem u64_le_prefix_free : PrefixFreeOn u64Le Set.univ :=
  .of_length u64_le_injective.injOn fun value _ =>
    List.length_reverse.trans (u64_be_length value)

/-- No float is written as the start of another. -/
theorem f32_le_prefix_free : PrefixFreeOn f32Le Set.univ :=
  .of_length f32_le_injective.injOn fun value _ =>
    List.length_reverse.trans (u32_be_length value.bits)

/-- No hash is written as the start of another. -/
theorem hash_prefix_free : PrefixFreeOn (fun hash : Hash => hash.toList) Set.univ :=
  .of_length (fun _ _ _ _ h => Vector.toList_inj.mp h) fun hash _ => hash.length_toList

/-- No byte is written as the start of another. -/
theorem byte_prefix_free : PrefixFreeOn (fun byte : UInt8 => [byte]) Set.univ :=
  .of_length (fun _ _ _ _ h => List.singleton_injective h) fun _ _ => rfl

/-- A length is told from its bytes when it is a `u64`. -/
theorem length_prefix_free :
    PrefixFreeOn (fun length : Nat => u64Le (UInt64.ofNat length)) {length | length < 2 ^ 64} := by
  refine u64_le_prefix_free.comap (fun _ _ => trivial) ?_
  intro first hfirst second hsecond h
  have hread := congrArg UInt64.toNat h
  rwa [UInt64.toNat_ofNat_of_lt' hfirst, UInt64.toNat_ofNat_of_lt' hsecond] at hread

/-- No fingerprint is written as the start of another. -/
theorem fingerprint_bytes_prefix_free : PrefixFreeOn fingerprintBytes Set.univ := by
  have hcode : fingerprintBytes = fun fingerprint : Option Hash =>
      (if fingerprint.isSome then 1 else 0) :: fingerprint.elim [] fun fp => fp.toList := by
    funext fingerprint
    cases fingerprint <;> rfl
  rw [hcode]
  intro first _ second _ rest rest' h
  exact hash_prefix_free.optional (by decide) (fun _ _ => trivial) (fun _ _ => trivial) h

/-- The bytes that are hashed for a list. -/
def listBytes {α : Type} (code : α → List UInt8) (items : List α) : List UInt8 :=
  u64Le (UInt64.ofNat items.length) ++ items.flatMap code

/-- A list with its length in front is prefix-free when its items are. -/
theorem list_bytes_prefix_free {α : Type} {code : α → List UInt8} {values : Set α}
    (h : PrefixFreeOn code values) :
    PrefixFreeOn (listBytes code) {items | items.length < 2 ^ 64 ∧ ∀ item ∈ items, item ∈ values} :=
  length_prefix_free.counted h

/-- The bytes that are hashed for a text. -/
def sourceBytes (source : String) : List UInt8 :=
  u64Le (UInt64.ofNat source.utf8ByteSize) ++ source.toUTF8.toList

/-- No source is written as the start of another. -/
theorem source_bytes_prefix_free :
    PrefixFreeOn sourceBytes {source | source.utf8ByteSize < 2 ^ 64} := by
  have hcode : sourceBytes = fun source : String =>
      u64Le (UInt64.ofNat (utf8Bytes source).length) ++
        (utf8Bytes source).flatMap fun byte => [byte] := by
    funext source
    rw [sourceBytes, to_utf8_to_list, List.flatMap_singleton', utf8_bytes_length]
  rw [hcode]
  refine (length_prefix_free.counted byte_prefix_free).comap (fun source hsource => ?_)
    utf8_bytes_injective.injOn
  exact ⟨hsource, fun _ _ => trivial⟩

/-- The bytes that are hashed for a provenance. -/
def provenanceBytes (p : ProvenanceRef) : List UInt8 :=
  p.evidenceHash.toList ++ sourceBytes p.source

/-- No provenance is written as the start of another. -/
theorem provenance_bytes_prefix_free :
    PrefixFreeOn provenanceBytes {p | p.source.utf8ByteSize < 2 ^ 64} := by
  refine (hash_prefix_free.append source_bytes_prefix_free).comap
    (f := fun p : ProvenanceRef => (p.evidenceHash, p.source)) (fun p hp => ⟨trivial, hp⟩) ?_
  rintro ⟨hash, source⟩ - ⟨hash', source'⟩ - h
  cases h
  rfl

/-! ## Checkpoints -/

namespace ContextCheckpoint

/-- The bytes that `checkpoint_hash` hashes. -/
def preimage (self : ContextCheckpoint) : List UInt8 :=
  "latentmesh-reasoning.context.v1".toUTF8.toList ++ (u64Le self.sequence ++
    (listBytes f32Le self.state ++ (self.parentHash.toList ++ (f32Le self.confidence ++
      (listBytes provenanceBytes self.provenance ++ (fingerprintBytes self.modelFingerprint ++
        fingerprintBytes self.adapterFingerprint))))))

/-- The content hash is that of the preimage. -/
theorem content_hash_eq (sha256 : List UInt8 → Hash) (self : ContextCheckpoint) :
    self.contentHash sha256 = sha256 self.preimage := by
  unfold contentHash checkpointHash preimage listBytes
  simp only [List.append_assoc]
  rfl

/-- The lengths of a checkpoint in memory are `usize` numbers. -/
structure Addressable (checkpoint : ContextCheckpoint) : Prop where
  state : checkpoint.state.length < 2 ^ 64
  provenance : checkpoint.provenance.length < 2 ^ 64
  source : ∀ p ∈ checkpoint.provenance, p.source.utf8ByteSize < 2 ^ 64

/-- Two checkpoints agree on what is hashed. -/
structure SameContent (first second : ContextCheckpoint) : Prop where
  sequence : first.sequence = second.sequence
  state : first.state = second.state
  parentHash : first.parentHash = second.parentHash
  confidence : first.confidence = second.confidence
  provenance : first.provenance = second.provenance
  modelFingerprint : first.modelFingerprint = second.modelFingerprint
  adapterFingerprint : first.adapterFingerprint = second.adapterFingerprint

variable {first second : ContextCheckpoint}

/-- Checkpoints with the same content have one preimage. -/
theorem SameContent.preimage_eq (h : first.SameContent second) :
    first.preimage = second.preimage := by
  unfold preimage
  rw [h.sequence, h.state, h.parentHash, h.confidence, h.provenance, h.modelFingerprint,
    h.adapterFingerprint]

/-- The fields are told one after the other. -/
theorem same_content_of_preimage_eq (hfirst : first.Addressable) (hsecond : second.Addressable)
    (h : first.preimage = second.preimage) : first.SameContent second := by
  have hfields := List.append_cancel_left h
  obtain ⟨hsequence, hfields⟩ := u64_le_prefix_free trivial trivial hfields
  obtain ⟨hstate, hfields⟩ := list_bytes_prefix_free f32_le_prefix_free
    ⟨hfirst.state, fun _ _ => trivial⟩ ⟨hsecond.state, fun _ _ => trivial⟩ hfields
  obtain ⟨hparent, hfields⟩ := hash_prefix_free trivial trivial hfields
  obtain ⟨hconfidence, hfields⟩ := f32_le_prefix_free trivial trivial hfields
  obtain ⟨hprovenance, hfields⟩ := list_bytes_prefix_free provenance_bytes_prefix_free
    ⟨hfirst.provenance, hfirst.source⟩ ⟨hsecond.provenance, hsecond.source⟩ hfields
  obtain ⟨hmodel, hadapter⟩ := fingerprint_bytes_prefix_free trivial trivial hfields
  exact ⟨hsequence, hstate, hparent, hconfidence, hprovenance, hmodel,
    fingerprint_bytes_prefix_free.inj_on trivial trivial hadapter⟩

end ContextCheckpoint

/-- A checkpoint that fits into memory. -/
structure StoredCheckpoint extends ContextCheckpoint where
  addressable : toContextCheckpoint.Addressable

/-- What `checkpoint_hash` hashes is the same for two checkpoints exactly when every field that it
hashes is. -/
theorem checkpoint_preimage_eq_iff (first second : StoredCheckpoint) :
    (∀ sha256 : List UInt8 → Hash, first.contentHash sha256 = sha256 first.preimage) ∧
      (first.preimage = second.preimage ↔ first.SameContent second.toContextCheckpoint) := by
  refine ⟨fun sha256 => first.content_hash_eq sha256, fun h => ?_, fun h => h.preimage_eq⟩
  exact ContextCheckpoint.same_content_of_preimage_eq first.addressable second.addressable h

/-! ## The chain behind a result hash -/

/-- The entries of two chains fit into memory and do not collide: what is hashed is the same if the
hashes are. -/
structure CollisionFree (sha256 : List UInt8 → Hash) (entries others : List ContextCheckpoint) :
    Prop where
  addressable : ∀ entry ∈ entries, entry.Addressable
  addressable' : ∀ other ∈ others, other.Addressable
  preimage_eq : ∀ entry ∈ entries, ∀ other ∈ others,
    entry.contentHash sha256 = other.contentHash sha256 → entry.preimage = other.preimage

section

variable {sha256 : List UInt8 → Hash} {entries others : List ContextCheckpoint}
  {entry other : ContextCheckpoint} {nextSequence nextSequence' : UInt64}

/-- Fewer checkpoints have no more collisions. -/
theorem CollisionFree.mono {part part' : List ContextCheckpoint}
    (h : CollisionFree sha256 entries others) (hpart : part ⊆ entries) (hpart' : part' ⊆ others) :
    CollisionFree sha256 part part' where
  addressable := fun entry hmem => h.addressable entry (hpart hmem)
  addressable' := fun other hmem => h.addressable' other (hpart' hmem)
  preimage_eq := fun entry hmem other hmem' =>
    h.preimage_eq entry (hpart hmem) other (hpart' hmem')

/-- A result hash tells the entry. -/
theorem Chain.entry_eq (h : Chain sha256 entries nextSequence)
    (h' : Chain sha256 others nextSequence') (hfree : CollisionFree sha256 entries others)
    (hentry : entry ∈ entries) (hother : other ∈ others)
    (hresult : entry.resultHash = other.resultHash) : entry = other := by
  have hcontent : entry.contentHash sha256 = other.contentHash sha256 := by
    rw [← h.hashed entry hentry, ← h'.hashed other hother, hresult]
  have hpreimage := hfree.preimage_eq entry hentry other hother hcontent
  obtain ⟨hsequence, hstate, hparent, hconfidence, hprovenance, hmodel, hadapter⟩ :=
    ContextCheckpoint.same_content_of_preimage_eq (hfree.addressable entry hentry)
      (hfree.addressable' other hother) hpreimage
  cases entry
  cases other
  dsimp only at hsequence hstate hparent hresult hconfidence hprovenance hmodel hadapter
  subst hsequence hstate hparent hresult hconfidence hprovenance hmodel hadapter
  rfl

/-- The last entry has the result hash of the entry before it as its parent hash. -/
theorem Chain.parent_hash_eq {previous : ContextCheckpoint}
    (h : Chain sha256 (entries ++ [previous] ++ [entry]) nextSequence) :
    entry.parentHash = previous.resultHash := by
  obtain ⟨-, -, hlinked⟩ := List.isChain_append.mp h.linked
  exact hlinked previous (by rw [List.getLast?_concat]; rfl) entry rfl

/-- Two chains that end with one result hash end with one entry, and the other entries of one of
them are the last ones of the other. -/
theorem Chain.lineage (h : Chain sha256 (entries ++ [entry]) nextSequence)
    (h' : Chain sha256 (others ++ [other]) nextSequence')
    (hfree : CollisionFree sha256 (entries ++ [entry]) (others ++ [other]))
    (hresult : entry.resultHash = other.resultHash) :
    entry = other ∧ (entries <:+ others ∨ others <:+ entries) := by
  -- back from the end, the parent hash of an entry is the result hash of the one before
  induction entries using List.reverseRecOn generalizing entry other others with
  | nil =>
      have hlast := h.entry_eq h' hfree (List.mem_append_right _ List.mem_cons_self)
        (List.mem_append_right _ List.mem_cons_self) hresult
      exact ⟨hlast, Or.inl (List.nil_suffix ..)⟩
  | append_singleton entries previous ih =>
      have hlast := h.entry_eq h' hfree (List.mem_append_right _ List.mem_cons_self)
        (List.mem_append_right _ List.mem_cons_self) hresult
      refine ⟨hlast, ?_⟩
      rcases List.eq_nil_or_concat others with rfl | ⟨others, previous', rfl⟩
      · exact Or.inr (List.nil_suffix ..)
      · rw [List.concat_eq_append] at h' hfree ⊢
        have hparent : previous.resultHash = previous'.resultHash := by
          rw [← h.parent_hash_eq, ← h'.parent_hash_eq, hlast]
        have hfront := h.infix (List.prefix_append ..).isInfix
        have hfront' := h'.infix (List.prefix_append ..).isInfix
        obtain ⟨rfl, hbefore⟩ := ih hfront hfront'
          (hfree.mono (List.subset_append_left ..) (List.subset_append_left ..)) hparent
        rwa [List.suffix_append_self_iff, List.suffix_append_self_iff]

end

/-- Two contexts with one current result hash have one current checkpoint, and the history of one of
them is the end of the history of the other. -/
theorem ContextState.Sound.lineage {sha256 : List UInt8 → Hash}
    {capacity capacity' : ContextCapacity} {state other : ContextState}
    (h : Sound sha256 capacity state) (h' : Sound sha256 capacity' other)
    (hfree : CollisionFree sha256 state.entries other.entries)
    (hresult : state.current.resultHash = other.current.resultHash) :
    state.current = other.current ∧
      (state.history <:+ other.history ∨ other.history <:+ state.history) :=
  h.chain.lineage h'.chain hfree hresult

end LatentMesh.Reasoning
