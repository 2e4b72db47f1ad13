import Mathlib.Data.List.Induction
import Mathlib.Data.String.Basic
import LatentMesh.Core.Floats
import LatentMesh.Lib.SortedMap
import LatentMesh.Memory.Record
import LatentMesh.Stream.Escalation

/-!
# The in-memory store

`InMemoryStore` of `store.rs`: the admission and the recall of records, the compression of a record,
and the promotion of records to a prototype and of a prototype to a rule. The numbers may be of any
types; `Arithmetic.ofFloat` has the operations of the program. The quantizers of `latentmesh-core`
are a parameter, as the operations on floats are. What a call does to the records and to the rules
is said once, in `InMemoryStore.apply_change`.
-/

namespace LatentMesh.Memory

open LatentMesh.Lib LatentMesh.Core
open LatentMesh.Stream (saturatingSucc)

/-- What the store computes with: `φ` stands for `f32` and `δ` for `f64`. -/
structure Arithmetic (φ δ : Type) where
  zero : φ
  add : φ → φ → φ
  sub : φ → φ → φ
  div : φ → φ → φ
  abs : φ → φ
  /-- `Iterator::sum`. -/
  sum : List φ → φ
  /-- `as f32`. -/
  ofNat : Nat → φ
  /-- `Payload::encode`, and `decode` of its payload. -/
  reencode : List φ → Encoding → List φ
  zero64 : δ
  add64 : δ → δ → δ
  div64 : δ → δ → δ
  lt64 : δ → δ → Bool
  /-- `as f64`. -/
  ofNat64 : Nat → δ

/-- The operations of the program. -/
def Arithmetic.ofFloat (f32 : FloatOps) (f64 : DoubleOps) (sum : List F32 → F32)
    (reencode : List F32 → Encoding → List F32) : Arithmetic F32 F64 where
  zero := .zero
  add := f32.add
  sub := f32.sub
  div := f32.div
  abs := F32.abs
  sum := sum
  ofNat := f32.ofNat
  reencode := reencode
  zero64 := .zero
  add64 := f64.add
  div64 := f64.div
  lt64 := f64.lt
  ofNat64 := f64.ofNat

variable {φ δ κ : Type}

/-- A latent after a lossy encoding, with its mean error. -/
structure CompressionOutcome (φ : Type) where
  latent : List φ
  meanAbsError : φ

/-- `compress_latent`. -/
def compressLatent (ops : Arithmetic φ δ) (latent : List φ) (encoding : Encoding) :
    CompressionOutcome φ :=
  let decoded := ops.reencode latent encoding
  let meanAbsError :=
    if latent.isEmpty then ops.zero
    else
      ops.div (ops.sum (List.zipWith (fun a b => ops.abs (ops.sub a b)) latent decoded))
        (ops.ofNat latent.length)
  ⟨decoded, meanAbsError⟩

/-- The parameters of a store. -/
structure MemoryConfig (δ : Type) where
  dimensions : Nat
  rawTierCausalFloor : δ
  rulePromotionUses : UInt32
  deriving DecidableEq, Repr

/-- The values 64, 0.5 and 3. -/
def MemoryConfig.default : MemoryConfig F64 := ⟨64, ⟨0x3fe0000000000000⟩, 3⟩

/-- Why a call fails. -/
inductive MemoryError (δ : Type) where
  | dimensionMismatch (got expected : Nat)
  | duplicateId (id : String)
  | unknownId (id : String)
  | causalValueBelowFloor (value floor : δ)
  | fidelityRegression (source target : Fidelity)
  | notEnoughMembers (members : Nat)
  | notReusedEnough (uses required : UInt32)
  deriving DecidableEq, Repr

/-- What the store asks of a record before it admits it. -/
def admitFidelity (ops : Arithmetic φ δ) (record : TrajectoryRecord φ δ)
    (config : MemoryConfig δ) : Except (MemoryError δ) Unit :=
  if record.latent.length ≠ config.dimensions then
    .error (.dimensionMismatch record.latent.length config.dimensions)
  else if record.fidelity = .raw ∧ ops.lt64 record.causalValue config.rawTierCausalFloor then
    .error (.causalValueBelowFloor record.causalValue config.rawTierCausalFloor)
  else .ok ()

/-- `max_by_key`: the last of the greatest. -/
def maxByKey {α κ : Type} [LE κ] [DecidableLE κ] (key : α → κ) : List α → Option α
  | [] => none
  | first :: rest =>
      some (rest.foldl (fun best item => if key best ≤ key item then item else best) first)

/-- The store: its records, in a map and in the order of their insertion, its topologies and rules.
-/
structure InMemoryStore (φ δ : Type) where
  config : MemoryConfig δ
  records : SortedMap String (TrajectoryRecord φ δ)
  insertionOrder : List String
  topologies : List TopologyRecord
  rules : List SymbolicRule

/-- What the loop over the members of a prototype has summed up. -/
structure MemberSums (φ δ : Type) where
  centroid : List φ
  reward : φ
  causal : δ
  parents : List String

/-- A hit of a recall, with a similarity of any type. -/
structure Recalled (φ δ κ : Type) where
  record : TrajectoryRecord φ δ
  similarity : κ

/-- A record after a lossy step. -/
def reencoded (ops : Arithmetic φ δ) (record : TrajectoryRecord φ δ) (encoding : Encoding)
    (target : Fidelity) : TrajectoryRecord φ δ :=
  let outcome := compressLatent ops record.latent encoding
  { record with
    latent := outcome.latent
    reconstructionError := ops.add record.reconstructionError outcome.meanAbsError
    fidelity := target }

/-- The encoding of a step to a tier. -/
def encodingOf : Fidelity → Encoding
  | .compressed => .f16
  | _ => .int8

namespace InMemoryStore

/-- `InMemoryStore::new`. -/
def new (config : MemoryConfig δ) : InMemoryStore φ δ := ⟨config, .empty, [], [], []⟩

/-- `InMemoryStore::get`. -/
def get (self : InMemoryStore φ δ) (id : String) : Option (TrajectoryRecord φ δ) :=
  self.records.find id

/-- `LatentMemory::len`. -/
def len (self : InMemoryStore φ δ) : Nat := self.records.size

end InMemoryStore

/-- `recall`. `similarity` is `cosine`, and `partialCmp` compares its values. -/
def InMemoryStore.recall (similarity : List φ → List φ → κ) (partialCmp : κ → κ → Option Ordering)
    (self : InMemoryStore φ δ) (query : List φ) (k : Nat) :
    Except (MemoryError δ) (List (Recalled φ δ κ)) :=
  if query.length ≠ self.config.dimensions then
    .error (.dimensionMismatch query.length self.config.dimensions)
  else
    let hits := (self.insertionOrder.filterMap self.records.find).map fun r =>
      (⟨r, similarity query r.latent⟩ : Recalled φ δ κ)
    let hits := hits.mergeSort fun a b =>
      (partialCmp b.similarity a.similarity).getD .eq != .gt
    .ok (hits.take k)

namespace InMemoryStore

/-- `InMemoryStore::store_topology`. -/
def storeTopology (self : InMemoryStore φ δ) (record : TopologyRecord) : InMemoryStore φ δ :=
  { self with topologies := self.topologies ++ [record] }

/-- `InMemoryStore::recall_topology`. -/
def recallTopology (self : InMemoryStore φ δ) (family : String) : Option TopologyRecord :=
  maxByKey TopologyRecord.successfulUses (self.topologies.filter fun t => t.family = family)

/-- `InMemoryStore::record_topology_use`. -/
def recordTopologyUse (self : InMemoryStore φ δ) (family : String) : InMemoryStore φ δ :=
  match maxByKey (fun entry => entry.1.successfulUses)
      (self.topologies.zipIdx.filter fun entry => entry.1.family = family) with
  | some (_, index) =>
      { self with
        topologies := self.topologies.modify index fun t =>
          { t with successfulUses := saturatingSucc t.successfulUses } }
  | none => self

/-- `InMemoryStore::promote_to_rule`. -/
def promoteToRule (self : InMemoryStore φ δ) (prototypeId : String) (uses : UInt32)
    (ruleText : String) : InMemoryStore φ δ × Except (MemoryError δ) Unit :=
  match self.records.find prototypeId with
  | none => (self, .error (.unknownId prototypeId))
  | some proto =>
      if uses < self.config.rulePromotionUses then
        (self, .error (.notReusedEnough uses self.config.rulePromotionUses))
      else
        ({ self with
          records := self.records.insert prototypeId { proto with fidelity := .rule }
          rules := self.rules ++ [⟨proto.action, ruleText, prototypeId, uses⟩] }, .ok ())

variable (ops : Arithmetic φ δ)

/-- `LatentMemory::store`. -/
def store (self : InMemoryStore φ δ) (record : TrajectoryRecord φ δ) :
    InMemoryStore φ δ × Except (MemoryError δ) Unit :=
  match admitFidelity ops record self.config with
  | .error error => (self, .error error)
  | .ok () =>
      if (self.records.find record.id).isSome then (self, .error (.duplicateId record.id))
      else
        ({ self with
          insertionOrder := self.insertionOrder ++ [record.id]
          records := self.records.insert record.id record }, .ok ())

/-- `LatentMemory::store_compressed`. -/
def storeCompressed (self : InMemoryStore φ δ) (record : TrajectoryRecord φ δ) :
    InMemoryStore φ δ × Except (MemoryError δ) Unit :=
  self.store ops (reencoded ops record .int8 .compressed)

/-- `LatentMemory::compress_to`. -/
def compressTo (self : InMemoryStore φ δ) (id : String) (target : Fidelity) :
    InMemoryStore φ δ × Except (MemoryError δ) φ :=
  match self.records.find id with
  | none => (self, .error (.unknownId id))
  | some record =>
      if target ≤ record.fidelity then
        (self, .error (.fidelityRegression record.fidelity target))
      else
        let lowered := reencoded ops record (encodingOf target) target
        ({ self with records := self.records.insert id lowered },
          .ok lowered.reconstructionError)

/-- The latent is added to the front of the centroid that it reaches. -/
def addLatent : List φ → List φ → List φ
  | c :: centroid, z :: latent => ops.add c z :: addLatent centroid latent
  | centroid, [] => centroid
  | [], _ => []

/-- The loop over the members. -/
def sumMembers (self : InMemoryStore φ δ) :
    List String → MemberSums φ δ → Except (MemoryError δ) (MemberSums φ δ)
  | [], sums => .ok sums
  | id :: ids, sums =>
      match self.records.find id with
      | none => .error (.unknownId id)
      | some member =>
          self.sumMembers ids {
            centroid := addLatent ops sums.centroid member.latent
            reward := ops.add sums.reward member.reward
            causal := ops.add64 sums.causal member.causalValue
            parents := sums.parents ++ [id] }

/-- The sums before the first member. -/
def emptySums (self : InMemoryStore φ δ) : MemberSums φ δ :=
  ⟨List.replicate self.config.dimensions ops.zero, ops.zero, ops.zero64, []⟩

/-- The prototype that the sums over its members make. -/
def prototypeOf (prototypeId family : String) (members : Nat) (sums : MemberSums φ δ) :
    TrajectoryRecord φ δ where
  id := prototypeId
  latent := sums.centroid.map fun c => ops.div c (ops.ofNat members)
  reward := ops.div sums.reward (ops.ofNat members)
  contextHash := "prototype:" ++ family
  action := family
  outcome := "prototype"
  causalValue := ops.div64 sums.causal (ops.ofNat64 members)
  fidelity := .prototype
  reconstructionError := ops.zero
  parents := sums.parents

/-- `LatentMemory::promote_to_prototype`. -/
def promoteToPrototype (self : InMemoryStore φ δ) (prototypeId family : String)
    (memberIds : List String) : InMemoryStore φ δ × Except (MemoryError δ) Unit :=
  if memberIds.length < 2 then (self, .error (.notEnoughMembers memberIds.length))
  else
    match self.sumMembers ops memberIds (self.emptySums ops) with
    | .error error => (self, .error error)
    | .ok sums => self.store ops (prototypeOf ops prototypeId family memberIds.length sums)

end InMemoryStore

/-- A call of the store that changes it. -/
inductive Call (φ δ : Type) where
  | store (record : TrajectoryRecord φ δ)
  | storeCompressed (record : TrajectoryRecord φ δ)
  | compressTo (id : String) (target : Fidelity)
  | promoteToPrototype (prototypeId family : String) (memberIds : List String)
  | promoteToRule (prototypeId : String) (uses : UInt32) (ruleText : String)
  | storeTopology (record : TopologyRecord)
  | recordTopologyUse (family : String)
  deriving DecidableEq

namespace InMemoryStore

/-- The store after a call, and whether the call succeeds. -/
def apply (ops : Arithmetic φ δ) (self : InMemoryStore φ δ) :
    Call φ δ → InMemoryStore φ δ × Except (MemoryError δ) Unit
  | .store record => self.store ops record
  | .storeCompressed record => self.storeCompressed ops record
  | .compressTo id target =>
      let (next, result) := self.compressTo ops id target
      (next, result.map fun _ => ())
  | .promoteToPrototype prototypeId family memberIds =>
      self.promoteToPrototype ops prototypeId family memberIds
  | .promoteToRule prototypeId uses ruleText => self.promoteToRule prototypeId uses ruleText
  | .storeTopology record => (self.storeTopology record, .ok ())
  | .recordTopologyUse family => (self.recordTopologyUse family, .ok ())

/-- The store after calls on an empty one. -/
def run (ops : Arithmetic φ δ) (config : MemoryConfig δ) (calls : List (Call φ δ)) :
    InMemoryStore φ δ :=
  calls.foldl (fun state call => (state.apply ops call).1) (new config)

/-! ## What a call does -/

/-- A call fails and changes nothing, or it changes the topologies only, or it does one of four
things to the records. -/
inductive Change (ops : Arithmetic φ δ) (self : InMemoryStore φ δ) :
    Call φ δ → InMemoryStore φ δ × Except (MemoryError δ) Unit → Prop where
  | refused (call : Call φ δ) (error : MemoryError δ) : Change ops self call (self, .error error)
  | remembered (call : Call φ δ) (topologies : List TopologyRecord)
      (hcall : (∃ record, call = .storeTopology record) ∨
        ∃ family, call = .recordTopologyUse family) :
      Change ops self call ({ self with topologies := topologies }, .ok ())
  | stored (call : Call φ δ) (record : TrajectoryRecord φ δ) (hfresh : self.get record.id = none)
      (hcall : call = .store record ∨
        record.fidelity = .compressed ∧ ∃ original, call = .storeCompressed original) :
      Change ops self call
        ({ self with
          insertionOrder := self.insertionOrder ++ [record.id]
          records := self.records.insert record.id record }, .ok ())
  | lowered (id : String) (target : Fidelity) (record : TrajectoryRecord φ δ)
      (hget : self.get id = some record) (hlt : record.fidelity < target) :
      Change ops self (.compressTo id target)
        ({ self with
          records := self.records.insert id
            (reencoded ops record (encodingOf target) target) }, .ok ())
  | folded (prototypeId family : String) (memberIds : List String) (sums : MemberSums φ δ)
      (hfresh : self.get prototypeId = none) (hlength : 2 ≤ memberIds.length)
      (hmembers : ∀ member ∈ memberIds, (self.get member).isSome = true)
      (hparents : sums.parents = memberIds) :
      Change ops self (.promoteToPrototype prototypeId family memberIds)
        ({ self with
          insertionOrder := self.insertionOrder ++ [prototypeId]
          records := self.records.insert prototypeId
            (prototypeOf ops prototypeId family memberIds.length sums) }, .ok ())
  | promoted (prototypeId : String) (uses : UInt32) (ruleText : String)
      (proto : TrajectoryRecord φ δ)
      (hget : self.get prototypeId = some proto) (huses : self.config.rulePromotionUses ≤ uses) :
      Change ops self (.promoteToRule prototypeId uses ruleText)
        ({ self with
          records := self.records.insert prototypeId { proto with fidelity := .rule }
          rules := self.rules ++ [⟨proto.action, ruleText, prototypeId, uses⟩] }, .ok ())

variable {ops : Arithmetic φ δ} {self : InMemoryStore φ δ}

/-- A record is refused, or stored under a new id. -/
theorem store_cases (ops : Arithmetic φ δ) (self : InMemoryStore φ δ)
    (record : TrajectoryRecord φ δ) :
    (∃ error, self.store ops record = (self, .error error)) ∨
      self.get record.id = none ∧
        self.store ops record =
          ({ self with
            insertionOrder := self.insertionOrder ++ [record.id]
            records := self.records.insert record.id record }, .ok ()) := by
  unfold store
  split
  · exact Or.inl ⟨_, rfl⟩
  · split
    · exact Or.inl ⟨_, rfl⟩
    · rename_i hfresh
      exact Or.inr ⟨Option.not_isSome_iff_eq_none.mp hfresh, rfl⟩

/-- The loop finds every member and keeps their ids. -/
theorem sum_members_ok {ids : List String} {sums result : MemberSums φ δ}
    (h : self.sumMembers ops ids sums = .ok result) :
    result.parents = sums.parents ++ ids ∧ ∀ id ∈ ids, (self.get id).isSome = true := by
  induction ids generalizing sums with
  | nil =>
      cases h
      exact ⟨(List.append_nil _).symm, List.forall_mem_nil _⟩
  | cons id ids ih =>
      rw [sumMembers] at h
      split at h
      · cases h
      · rename_i member hmember
        obtain ⟨hparents, hstored⟩ := ih h
        refine ⟨by rw [hparents, List.append_assoc, List.singleton_append], ?_⟩
        refine List.forall_mem_cons.mpr ⟨?_, hstored⟩
        rw [get, hmember, Option.isSome_some]

/-- Adding a latent keeps the length of the centroid. -/
theorem add_latent_length (centroid latent : List φ) :
    (addLatent ops centroid latent).length = centroid.length := by
  induction centroid, latent using addLatent.induct with
  | case1 c centroid z latent ih => rw [addLatent, List.length_cons, ih, List.length_cons]
  | case2 centroid => cases centroid <;> rfl
  | case3 latent hne => cases latent <;> rfl

/-- The loop ends when every member is stored. -/
theorem sum_members_of_stored (ops : Arithmetic φ δ) {ids : List String} (sums : MemberSums φ δ)
    (h : ∀ id ∈ ids, (self.get id).isSome = true) :
    ∃ result, self.sumMembers ops ids sums = .ok result ∧
      result.centroid.length = sums.centroid.length := by
  induction ids generalizing sums with
  | nil => exact ⟨sums, rfl, rfl⟩
  | cons id ids ih =>
      obtain ⟨hid, hids⟩ := List.forall_mem_cons.mp h
      obtain ⟨member, hmember⟩ := Option.isSome_iff_exists.mp hid
      obtain ⟨result, hsum, hlength⟩ := ih {
        centroid := addLatent ops sums.centroid member.latent
        reward := ops.add sums.reward member.reward
        causal := ops.add64 sums.causal member.causalValue
        parents := sums.parents ++ [id] } hids
      refine ⟨result, ?_, hlength.trans (add_latent_length _ _)⟩
      rw [get] at hmember
      rw [sumMembers, hmember]
      exact hsum

/-- What a promotion to a prototype does. -/
theorem promote_to_prototype_change (prototypeId family : String) (memberIds : List String) :
    Change ops self (.promoteToPrototype prototypeId family memberIds)
      (self.promoteToPrototype ops prototypeId family memberIds) := by
  unfold promoteToPrototype
  split
  · exact .refused _ _
  · rename_i hlength
    split
    · exact .refused _ _
    · rename_i sums hsums
      obtain ⟨hparents, hstored⟩ := sum_members_ok hsums
      rcases store_cases ops self
          (prototypeOf ops prototypeId family memberIds.length sums) with
        ⟨error, hstore⟩ | ⟨hfresh, hstore⟩
      · rw [hstore]
        exact .refused _ _
      · rw [hstore]
        exact .folded _ _ _ _ hfresh (not_lt.mp hlength) hstored hparents

/-- A prototype of stored members is made under a new id. -/
theorem promote_to_prototype_of_stored (ops : Arithmetic φ δ) (family : String)
    {prototypeId : String} {memberIds : List String}
    (hlength : 2 ≤ memberIds.length)
    (hmembers : ∀ member ∈ memberIds, (self.get member).isSome = true)
    (hfresh : self.get prototypeId = none) :
    ∃ record, record.fidelity = .prototype ∧
      (self.promoteToPrototype ops prototypeId family memberIds).1.get prototypeId =
        some record := by
  obtain ⟨sums, hsums, hcentroid⟩ :=
    sum_members_of_stored ops (self.emptySums ops) hmembers
  refine ⟨prototypeOf ops prototypeId family memberIds.length sums, rfl, ?_⟩
  have hlatent : (prototypeOf ops prototypeId family memberIds.length sums).latent.length =
      self.config.dimensions := by
    rw [prototypeOf, List.length_map, hcentroid, emptySums, List.length_replicate]
  have hadmit : admitFidelity ops (prototypeOf ops prototypeId family memberIds.length sums)
      self.config = .ok () := by
    rw [admitFidelity, if_neg (not_not_intro hlatent), if_neg]
    exact fun h => nomatch h.1
  have hnone : ¬ (self.records.find prototypeId).isSome = true :=
    Option.not_isSome_iff_eq_none.mpr hfresh
  rw [promoteToPrototype, if_neg (not_lt.mpr hlength), hsums]
  dsimp only
  rw [store, hadmit]
  dsimp only
  rw [show (prototypeOf ops prototypeId family memberIds.length sums).id = prototypeId from rfl,
    if_neg hnone]
  exact SortedMap.find_insert_self _ _ _

/-- What a call does. -/
theorem apply_change (ops : Arithmetic φ δ) (self : InMemoryStore φ δ) (call : Call φ δ) :
    Change ops self call (self.apply ops call) := by
  cases call with
  | store record =>
      show Change ops self _ (self.store ops record)
      rcases store_cases ops self record with ⟨error, h⟩ | ⟨hfresh, h⟩
      · rw [h]
        exact .refused _ _
      · rw [h]
        exact .stored _ _ hfresh (Or.inl rfl)
  | storeCompressed record =>
      show Change ops self _ (self.storeCompressed ops record)
      unfold storeCompressed
      generalize hcompressed : reencoded ops record .int8 .compressed = compressed
      rcases store_cases ops self compressed with ⟨error, h⟩ | ⟨hfresh, h⟩
      · rw [h]
        exact .refused _ _
      · rw [h]
        exact .stored _ _ hfresh (Or.inr ⟨by rw [← hcompressed]; rfl, record, rfl⟩)
  | compressTo id target =>
      show Change ops self _ ((self.compressTo ops id target).1,
        (self.compressTo ops id target).2.map fun _ => ())
      unfold compressTo
      split
      · exact .refused _ _
      · rename_i record hget
        split
        · exact .refused _ _
        · exact .lowered _ _ _ hget (not_le.mp ‹_›)
  | promoteToPrototype prototypeId family memberIds =>
      exact promote_to_prototype_change prototypeId family memberIds
  | promoteToRule prototypeId uses ruleText =>
      show Change ops self _ (self.promoteToRule prototypeId uses ruleText)
      unfold promoteToRule
      split
      · exact .refused _ _
      · rename_i proto hget
        split
        · exact .refused _ _
        · rename_i henough
          exact .promoted _ _ _ _ hget (UInt32.not_lt.mp henough)
  | storeTopology record => exact .remembered _ _ (Or.inl ⟨record, rfl⟩)
  | recordTopologyUse family =>
      show Change ops self _ (self.recordTopologyUse family, .ok ())
      unfold recordTopologyUse
      split
      · exact .remembered _ _ (Or.inr ⟨family, rfl⟩)
      · exact .remembered _ self.topologies (Or.inr ⟨family, rfl⟩)

/-- No call changes the parameters. -/
theorem Change.config_eq {call : Call φ δ} {next : InMemoryStore φ δ}
    {result : Except (MemoryError δ) Unit} (h : Change ops self call (next, result)) :
    next.config = self.config := by
  cases h <;> rfl

/-- A compression to a lower fidelity re-encodes the record. -/
theorem compress_to_of_lt {id : String} {target : Fidelity} {record : TrajectoryRecord φ δ}
    (hget : self.get id = some record) (hlt : record.fidelity < target) :
    (self.compressTo ops id target).1 =
      { self with
        records := self.records.insert id
          (reencoded ops record (encodingOf target) target) } := by
  rw [get] at hget
  rw [compressTo, hget]
  dsimp only
  rw [if_neg (not_le.mpr hlt)]

/-- A promotion with enough uses makes the prototype a rule. -/
theorem promote_to_rule_of_le {prototypeId : String} {uses : UInt32} {ruleText : String}
    {proto : TrajectoryRecord φ δ} (hget : self.get prototypeId = some proto)
    (huses : self.config.rulePromotionUses ≤ uses) :
    (self.promoteToRule prototypeId uses ruleText).1 =
      { self with
        records := self.records.insert prototypeId { proto with fidelity := .rule }
        rules := self.rules ++ [⟨proto.action, ruleText, prototypeId, uses⟩] } := by
  rw [get] at hget
  rw [promoteToRule, hget]
  dsimp only
  rw [if_neg (UInt32.not_lt.mpr huses)]

/-- A failed call leaves the store as it is. -/
theorem apply_error {call : Call φ δ} {error : MemoryError δ}
    (h : (self.apply ops call).2 = .error error) : (self.apply ops call).1 = self := by
  have hchange := apply_change ops self call
  generalize self.apply ops call = outcome at h hchange ⊢
  cases hchange with
  | refused => rfl
  | _ => cases h

/-! ## Runs -/

/-- One call more. -/
theorem run_concat (ops : Arithmetic φ δ) (config : MemoryConfig δ) (calls : List (Call φ δ))
    (call : Call φ δ) :
    run ops config (calls ++ [call]) = ((run ops config calls).apply ops call).1 := by
  rw [run, List.foldl_append]
  rfl

/-- What the last call of a run does. -/
theorem run_change (ops : Arithmetic φ δ) (config : MemoryConfig δ) (calls : List (Call φ δ))
    (call : Call φ δ) :
    ∃ result, Change ops (run ops config calls) call
      (run ops config (calls ++ [call]), result) ∧
        result = ((run ops config calls).apply ops call).2 := by
  rw [run_concat]
  exact ⟨_, apply_change ops _ call, rfl⟩

/-- A run keeps the parameters. -/
theorem run_config {config : MemoryConfig δ} (calls : List (Call φ δ)) :
    (run ops config calls).config = config := by
  induction calls using List.reverseRecOn with
  | nil => rfl
  | append_singleton calls call ih =>
      obtain ⟨_, hchange, -⟩ := run_change ops config calls call
      exact hchange.config_eq.trans ih

end InMemoryStore

end LatentMesh.Memory
