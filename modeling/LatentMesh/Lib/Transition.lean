/-!
# Transition systems

The states that a step relation reaches, and the invariant rule. For a run over a list of inputs:
what holds at every step of it, and where what it collects comes from.
-/

namespace LatentMesh.Lib

/-- The states reachable from an initial state. -/
inductive Reachable {σ : Type} (Step : σ → σ → Prop) (start : σ) : σ → Prop where
  | start : Reachable Step start start
  | step {state next : σ} :
      Reachable Step start state → Step state next → Reachable Step start next

/-- What holds at the start and is kept by every step holds in every reachable state. -/
theorem Reachable.invariant {σ : Type} {Step : σ → σ → Prop} {start state : σ} (Inv : σ → Prop)
    (h : Reachable Step start state) (hstart : Inv start)
    (hstep : ∀ state next, Inv state → Step state next → Inv next) : Inv state := by
  induction h with
  | start => exact hstart
  | step _ hnext ih => exact hstep _ _ ih hnext

section Inputs

variable {α : Type} {P : List α → α → Prop}

/-- An empty list cannot be split at an item. -/
theorem forall_split_nil :
    ∀ before input after, ([] : List α) = before ++ input :: after → P before input := by
  intro before input after h
  cases before <;> cases h

/-- What holds at every step holds at the first one and at every step after it. -/
theorem forall_split_cons {first : α} {inputs : List α} :
    (∀ before input after, first :: inputs = before ++ input :: after → P before input) ↔
      P [] first ∧
        ∀ before input after, inputs = before ++ input :: after → P (first :: before) input := by
  constructor
  · intro h
    exact ⟨h [] first inputs rfl, fun before input after heq =>
      h (first :: before) input after (congrArg _ heq)⟩
  · rintro ⟨hfirst, hrest⟩ before input after heq
    cases before with
    | nil =>
        cases heq
        exact hfirst
    | cons head before =>
        obtain ⟨rfl, htail⟩ := List.cons.inj heq
        exact hrest before input after htail

/-- What holds at every step of a longer run holds at every step of the run and at the last one. -/
theorem forall_split_concat {inputs : List α} {last : α} :
    (∀ before input after, inputs ++ [last] = before ++ input :: after → P before input) ↔
      (∀ before input after, inputs = before ++ input :: after → P before input) ∧
        P inputs last := by
  constructor
  · intro h
    refine ⟨fun before input after heq => ?_, h inputs last [] rfl⟩
    exact h before input (after ++ [last]) (by rw [heq, List.append_assoc, List.cons_append])
  · rintro ⟨hbefore, hlast⟩ before input after heq
    rcases List.eq_nil_or_concat after with rfl | ⟨init, final, rfl⟩
    · obtain ⟨rfl, hinput⟩ := List.append_inj' heq rfl
      cases hinput
      exact hlast
    · rw [List.concat_eq_append, ← List.cons_append, ← List.append_assoc] at heq
      exact hbefore before input init (List.append_inj' heq rfl).1

/-- When a step over an input adds nothing but what stands for the input, a run holds nothing but
what stands for its inputs. -/
theorem foldl_subset {σ β : Type} {step : σ → α → σ} {items : σ → List β} {standing : α → β}
    {inputs : List α} {state : σ}
    (hstep : ∀ input ∈ inputs, ∀ state,
      items (step state input) ⊆ items state ++ [standing input]) :
    items (inputs.foldl step state) ⊆ items state ++ inputs.map standing := by
  induction inputs generalizing state with
  | nil => exact List.subset_append_left _ _
  | cons input inputs ih =>
      obtain ⟨hfirst, hrest⟩ := List.forall_mem_cons.mp hstep
      intro item hitem
      rcases List.mem_append.mp (ih hrest hitem) with hbefore | hlater
      · rcases List.mem_append.mp (hfirst state hbefore) with hold | hnew
        · exact List.mem_append_left _ hold
        · rw [List.mem_singleton.mp hnew]
          exact List.mem_append_right _ (List.mem_cons_self ..)
      · exact List.mem_append_right _ (List.mem_cons_of_mem _ hlater)

end Inputs

end LatentMesh.Lib
