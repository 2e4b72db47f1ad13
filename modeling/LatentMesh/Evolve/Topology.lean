import Mathlib.Data.List.ProdSigma
import LatentMesh.Core.Authority
import LatentMesh.Lib.SortedMap

/-!
# Communication topologies

`Topology` of `topology.rs`: the active agents, the edges between agents, and the caps on the
authority of the edges. The constitution is what evolution may not break, and `Follows` is what one
topology keeps of another: it is a preorder, so a run of any length keeps what its steps keep.
-/

namespace LatentMesh.Evolve

open LatentMesh.Lib LatentMesh.Core

/-- The number of an agent. -/
abbrev AgentId := UInt8

/-- The pair `(from, to)` under which an edge is stored. -/
structure EdgeKey where
  source : AgentId
  target : AgentId
  deriving DecidableEq, Repr

namespace EdgeKey

/-- The place of a pair in the order of pairs. -/
def rank (key : EdgeKey) : Nat := key.source.toNat * 256 + key.target.toNat

/-- The rank tells the key. -/
theorem rank_injective : Function.Injective rank := by
  rintro ⟨source, target⟩ ⟨source', target'⟩ h
  have htarget := target.toNat_lt
  have htarget' := target'.toNat_lt
  unfold rank at h
  dsimp only at h
  have hsource : source = source' := UInt8.toNat_inj.mp (by omega)
  subst hsource
  have : target = target' := UInt8.toNat_inj.mp (by omega)
  subst this
  rfl

instance : LinearOrder EdgeKey where
  le first second := first.rank ≤ second.rank
  le_refl first := Nat.le_refl first.rank
  le_trans _ _ _ := Nat.le_trans
  le_antisymm _ _ h h' := rank_injective (Nat.le_antisymm h h')
  le_total first second := Nat.le_total first.rank second.rank
  toDecidableLE first second := inferInstanceAs (Decidable (first.rank ≤ second.rank))
  toDecidableEq := inferInstance

end EdgeKey

/-- An edge with its cap and flags. -/
structure Edge where
  /-- `from`. -/
  source : AgentId
  /-- `to`. -/
  target : AgentId
  encoding : Encoding
  authority : Authority
  /-- The edge is there for control, and is not removed for its low value. -/
  mandatory : Bool
  deriving DecidableEq, Repr

/-- A topology: its agents, edges and caps. -/
structure Topology where
  activeAgents : List AgentId
  edges : SortedMap EdgeKey Edge
  authorityCaps : SortedMap EdgeKey Authority

namespace Topology

/-- `Topology::default`. -/
def default : Topology := ⟨[], .empty, .empty⟩

/-- An edge of the topology that evolution starts at. -/
def wastefulEdge (cap : Authority) (source target : AgentId) : Edge :=
  ⟨source, target, .f32, min .contextInject cap, false⟩

/-- One turn of the loops over the agents. -/
def connect (cap : Authority) (topology : Topology) (pair : AgentId × AgentId) : Topology :=
  let (source, target) := pair
  if source = target then topology
  else
    { topology with
      authorityCaps := topology.authorityCaps.insert ⟨source, target⟩ cap
      edges := topology.edges.insert ⟨source, target⟩ (wastefulEdge cap source target) }

/-- `fully_connected`. -/
def fullyConnected (agents : List AgentId) (cap : Authority) : Topology :=
  (agents.product agents).foldl (connect cap) { default with activeAgents := agents }

/-- The cap of an edge: an edge that is not in the map has the floor. -/
def capFor (self : Topology) (source target : AgentId) : Authority :=
  (self.authorityCaps.find ⟨source, target⟩).getD .observeOnly

/-! ## The constitution -/

/-- A topology has a mandatory edge. -/
def MandatoryAt (self : Topology) (key : EdgeKey) : Prop :=
  ∃ edge, self.edges.find key = some edge ∧ edge.mandatory = true

/-- Every edge is stored under its own agents. -/
def Keyed (self : Topology) : Prop :=
  ∀ key edge, self.edges.find key = some edge → edge.source = key.source ∧ edge.target = key.target

/-- The constitution. -/
structure Constitution (topology : Topology) : Prop where
  capped : ∀ key edge, topology.edges.find key = some edge →
    edge.authority ≤ topology.capFor key.source key.target
  anchored : ∀ key edge, topology.edges.find key = some edge → edge.mandatory = true →
    edge.source ∈ topology.activeAgents ∧ edge.target ∈ topology.activeAgents
  loopless : ∀ key edge, topology.edges.find key = some edge →
    key.source ≠ key.target ∧ edge.source ≠ edge.target

/-- What a topology keeps of another one. -/
structure Follows (start next : Topology) : Prop where
  caps : next.authorityCaps = start.authorityCaps
  mandatory : ∀ key, next.MandatoryAt key ↔ start.MandatoryAt key
  keyed : start.Keyed → next.Keyed
  constitution : start.Constitution → next.Constitution

/-- A topology follows itself. -/
theorem Follows.refl (self : Topology) : Follows self self :=
  ⟨rfl, fun _ => Iff.rfl, id, id⟩

/-- What follows a follower follows. -/
theorem Follows.trans {first second third : Topology} (h : Follows first second)
    (h' : Follows second third) : Follows first third where
  caps := h'.caps.trans h.caps
  mandatory key := (h'.mandatory key).trans (h.mandatory key)
  keyed hkeyed := h'.keyed (h.keyed hkeyed)
  constitution hconstitution := h'.constitution (h.constitution hconstitution)

/-! ### Changes that follow -/

section Changes

variable {start : Topology}

/-- Storing an edge under a key: one that is mandatory just when the edge before it was, within the
cap and between the same agents. -/
theorem follows_of_insert {key : EdgeKey} {edge : Edge}
    (hmandatory : edge.mandatory = true ↔ start.MandatoryAt key)
    (hkeyed : start.Keyed → edge.source = key.source ∧ edge.target = key.target)
    (hcapped : start.Constitution → edge.authority ≤ start.capFor key.source key.target)
    (hanchored : start.Constitution → edge.mandatory = true →
      edge.source ∈ start.activeAgents ∧ edge.target ∈ start.activeAgents)
    (hloopless : start.Constitution → key.source ≠ key.target ∧ edge.source ≠ edge.target) :
    Follows start { start with edges := start.edges.insert key edge } := by
  have hfind : ∀ {other found}, (start.edges.insert key edge).find other = some found →
      key = other ∧ edge = found ∨ start.edges.find other = some found := fun h =>
    (SortedMap.find_insert_eq_some_iff.mp h).imp_right And.right
  refine ⟨rfl, fun other => ?_, fun h other found hother => ?_, fun h => ?_⟩
  · by_cases hkey : key = other
    · subst hkey
      rw [← hmandatory]
      simp [MandatoryAt]
    · simp [MandatoryAt, hkey]
  · rcases hfind hother with ⟨rfl, rfl⟩ | hold
    · exact hkeyed h
    · exact h other found hold
  · refine ⟨fun other found hother => ?_, fun other found hother hfound => ?_,
      fun other found hother => ?_⟩
    · rcases hfind hother with ⟨rfl, rfl⟩ | hold
      · exact hcapped h
      · exact h.capped other found hold
    · rcases hfind hother with ⟨rfl, rfl⟩ | hold
      · exact hanchored h hfound
      · exact h.anchored other found hold hfound
    · rcases hfind hother with ⟨rfl, rfl⟩ | hold
      · exact hloopless h
      · exact h.loopless other found hold

/-- Dropping edges that are not mandatory. -/
theorem follows_of_retain {keep : EdgeKey → Edge → Bool}
    (hkeep : ∀ key edge, start.edges.find key = some edge → edge.mandatory = true →
      keep key edge = true) :
    Follows start { start with edges := start.edges.retain keep } := by
  have hfind : ∀ {key edge}, (start.edges.retain keep).find key = some edge →
      start.edges.find key = some edge := fun h => (SortedMap.find_retain_eq_some_iff.mp h).1
  refine ⟨rfl, fun key => ⟨?_, ?_⟩, fun h key edge hedge => h key edge (hfind hedge), fun h => ?_⟩
  · rintro ⟨edge, hedge, hmandatory⟩
    exact ⟨edge, hfind hedge, hmandatory⟩
  · rintro ⟨edge, hedge, hmandatory⟩
    exact ⟨edge, SortedMap.find_retain_eq_some_iff.mpr ⟨hedge, hkeep key edge hedge hmandatory⟩,
      hmandatory⟩
  · exact ⟨fun key edge hedge => h.capped key edge (hfind hedge),
      fun key edge hedge => h.anchored key edge (hfind hedge),
      fun key edge hedge => h.loopless key edge (hfind hedge)⟩

/-- Keeping the agents of the mandatory edges active. -/
theorem follows_of_agents {agents : List AgentId}
    (hagents : ∀ key edge, start.edges.find key = some edge → edge.mandatory = true →
      edge.source ∈ start.activeAgents → edge.target ∈ start.activeAgents →
        edge.source ∈ agents ∧ edge.target ∈ agents) :
    Follows start { start with activeAgents := agents } := by
  refine ⟨rfl, fun _ => Iff.rfl, id, fun h => ⟨h.capped, fun key edge hedge hmandatory => ?_,
    h.loopless⟩⟩
  obtain ⟨hsource, htarget⟩ := h.anchored key edge hedge hmandatory
  exact hagents key edge hedge hmandatory hsource htarget

/-- Deactivating agents that have no mandatory edge. -/
theorem follows_of_filter {keep : AgentId → Bool}
    (hkeep : ∀ key edge, start.edges.find key = some edge → edge.mandatory = true →
      keep edge.source = true ∧ keep edge.target = true) :
    Follows start { start with activeAgents := start.activeAgents.filter keep } := by
  refine follows_of_agents fun key edge hedge hmandatory hsource htarget => ?_
  obtain ⟨hkeepSource, hkeepTarget⟩ := hkeep key edge hedge hmandatory
  exact ⟨List.mem_filter.mpr ⟨hsource, hkeepSource⟩, List.mem_filter.mpr ⟨htarget, hkeepTarget⟩⟩

end Changes

/-! ## The topology that evolution starts at -/

section Connected

variable (cap : Authority) (key : EdgeKey) (start : Topology)

/-- The edges after one pair is connected. -/
theorem connect_find (pair : AgentId × AgentId) :
    (connect cap start pair).edges.find key =
        (if pair = (key.source, key.target) ∧ key.source ≠ key.target then
          some (wastefulEdge cap key.source key.target)
        else start.edges.find key) ∧
      (connect cap start pair).authorityCaps.find key =
        if pair = (key.source, key.target) ∧ key.source ≠ key.target then some cap
        else start.authorityCaps.find key := by
  obtain ⟨source, target⟩ := pair
  obtain ⟨keySource, keyTo⟩ := key
  unfold connect
  by_cases hself : source = target
  · subst hself
    have hnot : ¬ ((source, source) = (keySource, keyTo) ∧ keySource ≠ keyTo) := by
      rintro ⟨heq, hne⟩
      cases heq
      exact hne rfl
    simp only [if_true, if_neg hnot, and_self]
  · simp only [if_neg hself, SortedMap.find_insert]
    by_cases hkey : (source, target) = (keySource, keyTo)
    · cases hkey
      simp [hself]
    · have hne : ¬ (⟨source, target⟩ : EdgeKey) = ⟨keySource, keyTo⟩ := by
        rintro heq
        cases heq
        exact hkey rfl
      simp [hkey, hne]

/-- The edges after some pairs are connected. -/
theorem connect_all_find (pairs : List (AgentId × AgentId)) :
    (pairs.foldl (connect cap) start).edges.find key =
        (if (key.source, key.target) ∈ pairs ∧ key.source ≠ key.target then
          some (wastefulEdge cap key.source key.target)
        else start.edges.find key) ∧
      (pairs.foldl (connect cap) start).authorityCaps.find key =
        if (key.source, key.target) ∈ pairs ∧ key.source ≠ key.target then some cap
        else start.authorityCaps.find key := by
  induction pairs generalizing start with
  | nil => simp
  | cons pair pairs ih =>
      obtain ⟨hedge, hcap⟩ := ih (connect cap start pair)
      obtain ⟨hedge', hcap'⟩ := connect_find cap key start pair
      rw [List.foldl_cons, hedge, hcap, hedge', hcap']
      simp only [List.mem_cons]
      by_cases hmem : (key.source, key.target) ∈ pairs <;>
        by_cases hpair : pair = (key.source, key.target) <;>
        by_cases hne : key.source = key.target <;> simp [hmem, hpair, hne, eq_comm]

/-- The edges of a fully connected topology. -/
theorem fully_connected_find (cap : Authority) (agents : List AgentId) (key : EdgeKey) :
    (fullyConnected agents cap).edges.find key =
        (if (key.source ∈ agents ∧ key.target ∈ agents) ∧ key.source ≠ key.target then
          some (wastefulEdge cap key.source key.target)
        else none) ∧
      (fullyConnected agents cap).authorityCaps.find key =
        if (key.source ∈ agents ∧ key.target ∈ agents) ∧ key.source ≠ key.target then some cap
        else none := by
  have h := connect_all_find cap key { default with activeAgents := agents }
    (agents.product agents)
  simp only [List.pair_mem_product] at h
  exact h

/-- Connecting pairs keeps the active agents. -/
theorem connect_all_active (pairs : List (AgentId × AgentId)) :
    (pairs.foldl (connect cap) start).activeAgents = start.activeAgents := by
  induction pairs generalizing start with
  | nil => rfl
  | cons pair pairs ih =>
      rw [List.foldl_cons, ih, connect]
      split
      · rfl
      · rfl

end Connected

end Topology

end LatentMesh.Evolve
