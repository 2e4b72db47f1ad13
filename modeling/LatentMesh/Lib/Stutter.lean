import Mathlib.Data.List.Basic

/-!
# Machines and inputs that leave no trace

A machine takes inputs and may give an output for each. An input is silent when it only moves a
counter that no other input looks at. `Transparent.run` then removes the silent inputs from a run:
the outputs stay, and the counter tells how many there were.
-/

namespace LatentMesh.Lib

section Machine

variable {σ ι ο : Type} (step : σ → ι → σ × Option ο)

/-- The state after some inputs. -/
def runState (start : σ) (inputs : List ι) : σ :=
  inputs.foldl (fun state input => (step state input).1) start

/-- What some inputs give, in order. -/
def runOutputs (start : σ) : List ι → List ο
  | [] => []
  | input :: rest => (step start input).2.toList ++ runOutputs (step start input).1 rest

/-- The inputs of a list that are not marked. -/
def unmarked (inputs : List (ι × Bool)) : List ι :=
  (inputs.filter fun input => !input.2).map Prod.fst

/-- Two states that are `same 0` differ in nothing that any input looks at, and a silent input
moves the first state of a pair one further from the second. -/
structure Transparent (same : Nat → σ → σ → Prop) (silent : ι → Prop) : Prop where
  agree : ∀ {k state other} input, same k state other →
    same k (step state input).1 (step other input).1 ∧ (step state input).2 = (step other input).2
  silent : ∀ {k state other input}, silent input → same k state other →
    same (k + 1) (step state input).1 other ∧ (step state input).2 = none

variable {step} {same : Nat → σ → σ → Prop} {silent : ι → Prop}

/-- A run with marked silent inputs is the run without them. -/
theorem Transparent.run (h : Transparent step same silent) {inputs : List (ι × Bool)}
    (hsilent : ∀ input ∈ inputs, input.2 = true → silent input.1) {k : Nat} {state other : σ}
    (hsame : same k state other) :
    same (k + inputs.countP Prod.snd) (runState step state (inputs.map Prod.fst))
        (runState step other (unmarked inputs)) ∧
      runOutputs step state (inputs.map Prod.fst) = runOutputs step other (unmarked inputs) := by
  induction inputs generalizing k state other with
  | nil => exact ⟨hsame, rfl⟩
  | cons input inputs ih =>
      obtain ⟨hfirst, hrest⟩ := List.forall_mem_cons.mp hsilent
      obtain ⟨input, mark⟩ := input
      cases mark with
      | false =>
          obtain ⟨hnext, houtput⟩ := h.agree input hsame
          obtain ⟨hstate, houtputs⟩ := ih hrest hnext
          refine ⟨hstate, ?_⟩
          rw [List.map_cons, runOutputs, houtput, houtputs]
          rfl
      | true =>
          obtain ⟨hnext, hnone⟩ := h.silent (hfirst rfl) hsame
          obtain ⟨hstate, houtputs⟩ := ih hrest hnext
          have hcount : ((input, true) :: inputs).countP Prod.snd = inputs.countP Prod.snd + 1 :=
            List.countP_cons_of_pos rfl
          rw [Nat.add_assoc, Nat.add_comm 1, ← hcount] at hstate
          refine ⟨hstate, ?_⟩
          rw [List.map_cons, runOutputs, hnone, houtputs]
          rfl

end Machine

end LatentMesh.Lib
