import Mathlib.Data.List.Sort
import LatentMesh.Evolve.Topology

/-!
# Mutations

`apply_mutation` of `darwin.rs`: what evolution may propose, and what is refused. Whatever a
mutation does, the topology after it follows the one before it (`Topology.apply_mutation_follows`).
-/

namespace LatentMesh.Evolve

open LatentMesh.Lib LatentMesh.Core

/-- The mutations of a topology. -/
inductive Mutation where
  | addEdge (source target : AgentId)
  | removeEdge (source target : AgentId)
  | raiseAuthority (source target : AgentId)
  | lowerAuthority (source target : AgentId)
  | changeEncoding (source target : AgentId) (encoding : Encoding)
  | deactivateAgent (agent : AgentId)
  | reactivateAgent (agent : AgentId)
  deriving DecidableEq, Repr

/-- Why a mutation is refused. -/
inductive MutationError where
  | authorityExceedsCap (requested cap : Authority)
  | mandatoryEdge (source target : AgentId)
  | invalid (why : String)
  deriving DecidableEq, Repr

/-- The next higher authority. -/
def raise : Authority → Option Authority
  | .observeOnly => some .contextInject
  | .contextInject => some .latentPrefix
  | .latentPrefix => some .actionInfluencing
  | .actionInfluencing => none

/-- The next lower authority. -/
def lower : Authority → Option Authority
  | .observeOnly => none
  | .contextInject => some .observeOnly
  | .latentPrefix => some .contextInject
  | .actionInfluencing => some .latentPrefix

/-- A lowered authority is no higher. -/
theorem lower_le {authority lowered : Authority} (h : lower authority = some lowered) :
    lowered ≤ authority := by
  rw [Authority.le_iff_rank_le]
  cases authority <;> cases h <;> decide

namespace Topology

/-- A mandatory edge starts or ends at an agent. -/
def anchorsMandatory (self : Topology) (agent : AgentId) : Bool :=
  self.edges.entries.any fun entry =>
    entry.2.mandatory && (entry.2.source == agent || entry.2.target == agent)

/-- The topology after a mutation, and whether the mutation is accepted. -/
def applyMutation (self : Topology) : Mutation → Topology × Except MutationError Unit
  | .addEdge source target =>
      if source = target then (self, .error (.invalid "self edge"))
      else
        let cap := self.capFor source target
        match self.edges.find ⟨source, target⟩ with
        | some _ => (self, .ok ())
        | none =>
            ({ self with
              edges := self.edges.insert ⟨source, target⟩
                ⟨source, target, .int8, min .observeOnly cap, false⟩ }, .ok ())
  | .removeEdge source target =>
      match self.edges.find ⟨source, target⟩ with
      | some edge =>
          if edge.mandatory then (self, .error (.mandatoryEdge source target))
          else ({ self with edges := self.edges.erase ⟨source, target⟩ }, .ok ())
      | none => (self, .ok ())
  | .raiseAuthority source target =>
      let cap := self.capFor source target
      match self.edges.find ⟨source, target⟩ with
      | none => (self, .error (.invalid "no such edge"))
      | some edge =>
          match raise edge.authority with
          | some next =>
              if next ≤ cap then
                ({ self with
                  edges := self.edges.insert ⟨source, target⟩ { edge with authority := next } },
                  .ok ())
              else (self, .error (.authorityExceedsCap next cap))
          | none => (self, .error (.authorityExceedsCap .actionInfluencing cap))
  | .lowerAuthority source target =>
      match self.edges.find ⟨source, target⟩ with
      | none => (self, .error (.invalid "no such edge"))
      | some edge =>
          match lower edge.authority with
          | some prev =>
              ({ self with
                edges := self.edges.insert ⟨source, target⟩ { edge with authority := prev } },
                .ok ())
          | none => (self, .ok ())
  | .changeEncoding source target encoding =>
      match self.edges.find ⟨source, target⟩ with
      | none => (self, .error (.invalid "no such edge"))
      | some edge =>
          ({ self with
            edges := self.edges.insert ⟨source, target⟩ { edge with encoding := encoding } },
            .ok ())
  | .deactivateAgent agent =>
      if self.anchorsMandatory agent then (self, .error (.mandatoryEdge agent agent))
      else
        ({ self with activeAgents := self.activeAgents.filter fun a => decide (a ≠ agent) },
          .ok ())
  | .reactivateAgent agent =>
      if self.activeAgents.contains agent then (self, .ok ())
      else
        ({ self with activeAgents := (self.activeAgents ++ [agent]).insertionSort (· ≤ ·) },
          .ok ())

/-- A topology after mutations, accepted or refused. -/
def applyMutations (self : Topology) (mutations : List Mutation) : Topology :=
  mutations.foldl (fun topology mutation => (topology.applyMutation mutation).1) self

variable {self : Topology}

/-- An edge with another authority or encoding. -/
theorem follows_of_update {key : EdgeKey} {old : Edge} (hold : self.edges.find key = some old)
    (authority : Authority) (encoding : Encoding)
    (hauthority : authority ≤ old.authority ∨ authority ≤ self.capFor key.source key.target) :
    Follows self { self with
      edges := self.edges.insert key { old with authority := authority, encoding := encoding } } :=
  follows_of_insert
    ⟨fun h => ⟨old, hold, h⟩, fun ⟨found, hfound, h⟩ => by
      rw [hold] at hfound
      cases hfound
      exact h⟩
    (fun h => h key old hold)
    (fun h => hauthority.elim (fun hle => hle.trans (h.capped key old hold)) id)
    (fun h => h.anchored key old hold)
    (fun h => h.loopless key old hold)

/-- An agent without mandatory edges is at the end of none. -/
theorem ne_of_not_anchors {agent : AgentId} (h : ¬ self.anchorsMandatory agent = true)
    {key : EdgeKey} {edge : Edge} (hedge : self.edges.find key = some edge)
    (hmandatory : edge.mandatory = true) : edge.source ≠ agent ∧ edge.target ≠ agent := by
  have hnone := (List.any_eq_false.mp (Bool.not_eq_true _ ▸ h)) (key, edge)
    ((SortedMap.mem_entries_iff _ _ _).mpr hedge)
  simpa [hmandatory] using hnone

/-- A mutation is accepted, and the topology after it follows the one before it, or it is refused
and changes nothing. -/
inductive Outcome (start : Topology) : Topology × Except MutationError Unit → Prop where
  | accepted {next : Topology} (hfollows : Follows start next) : Outcome start (next, .ok ())
  | refused (error : MutationError) : Outcome start (start, .error error)

/-- What a mutation does. -/
theorem apply_mutation_outcome (self : Topology) (mutation : Mutation) :
    Outcome self (self.applyMutation mutation) := by
  cases mutation with
  | addEdge source target =>
      rw [applyMutation]
      split
      · exact .refused _
      · rename_i hne
        dsimp only
        split
        · exact .accepted (.refl _)
        · rename_i hnone
          refine .accepted <| follows_of_insert ⟨fun h => ?_, fun h => ?_⟩
            (fun _ => ⟨rfl, rfl⟩) (fun _ => ?_) (fun _ h => ?_) (fun _ => ⟨hne, hne⟩)
          · cases h
          · obtain ⟨edge, hedge, -⟩ := h
            rw [hnone] at hedge
            cases hedge
          · exact min_le_right _ _
          · cases h
  | removeEdge source target =>
      rw [applyMutation]
      split
      · rename_i edge hedge
        split
        · exact .refused _
        · rename_i hfree
          rw [SortedMap.erase_eq_retain]
          refine .accepted <| follows_of_retain fun key other hother hmandatory =>
            decide_eq_true fun hkey => hfree ?_
          subst hkey
          rw [hedge] at hother
          cases hother
          exact hmandatory
      · exact .accepted (.refl _)
  | raiseAuthority source target =>
      rw [applyMutation]
      split
      · exact .refused _
      · rename_i edge hedge
        split
        · split
          · rename_i hle
            exact .accepted (follows_of_update hedge _ edge.encoding (Or.inr hle))
          · exact .refused _
        · exact .refused _
  | lowerAuthority source target =>
      rw [applyMutation]
      split
      · exact .refused _
      · rename_i edge hedge
        split
        · rename_i prev hprev
          exact .accepted (follows_of_update hedge _ edge.encoding (Or.inl (lower_le hprev)))
        · exact .accepted (.refl _)
  | changeEncoding source target encoding =>
      rw [applyMutation]
      split
      · exact .refused _
      · rename_i edge hedge
        exact .accepted (follows_of_update hedge edge.authority _ (Or.inl le_rfl))
  | deactivateAgent agent =>
      rw [applyMutation]
      split
      · exact .refused _
      · rename_i hfree
        refine .accepted <| follows_of_filter fun key edge hedge hmandatory => ?_
        obtain ⟨hne, hne'⟩ := ne_of_not_anchors hfree hedge hmandatory
        exact ⟨decide_eq_true hne, decide_eq_true hne'⟩
  | reactivateAgent agent =>
      rw [applyMutation]
      split
      · exact .accepted (.refl _)
      · refine .accepted <| follows_of_agents fun key edge hedge hmandatory hsource htarget => ?_
        rw [List.mem_insertionSort, List.mem_insertionSort]
        exact ⟨List.mem_append_left _ hsource, List.mem_append_left _ htarget⟩

/-- A mutation follows the topology. -/
theorem apply_mutation_follows (self : Topology) (mutation : Mutation) :
    Follows self (self.applyMutation mutation).1 := by
  have h := apply_mutation_outcome self mutation
  generalize self.applyMutation mutation = outcome at h ⊢
  cases h with
  | accepted hfollows => exact hfollows
  | refused => exact .refl _

/-- A refused mutation leaves the topology as it is. -/
theorem apply_mutation_error {mutation : Mutation} {error : MutationError}
    (h : (self.applyMutation mutation).2 = .error error) :
    (self.applyMutation mutation).1 = self := by
  have houtcome := apply_mutation_outcome self mutation
  generalize self.applyMutation mutation = outcome at h houtcome ⊢
  cases houtcome with
  | accepted => cases h
  | refused => rfl

/-- Mutations follow the topology. -/
theorem apply_mutations_follows (self : Topology) (mutations : List Mutation) :
    Follows self (self.applyMutations mutations) := by
  induction mutations generalizing self with
  | nil => exact .refl _
  | cons mutation mutations ih => exact (apply_mutation_follows self mutation).trans (ih _)

end Topology

end LatentMesh.Evolve
