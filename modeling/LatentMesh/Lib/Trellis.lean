import Mathlib.Algebra.Order.Group.Int
import Mathlib.Data.List.Basic

/-!
# Best paths through a trellis

A trellis is a state machine read over time, with a metric on every edge. A forward pass keeps,
for every state, the best metric of a word that reaches it and the predecessor that attains it.
`Forward` says what one step of such a pass has to establish, whatever order it visits the edges
in. `Forward.survivor_metric` and `Forward.metric_le` are the two halves of its correctness: the
word read back along the predecessors attains the kept metric, and no word does better.
-/

namespace LatentMesh.Lib

/-- A state machine with a start state. -/
structure Trellis (σ ι : Type) where
  start : σ
  next : σ → ι → σ

namespace Trellis

variable {σ ι : Type}

/-- The state reached from `state` by a word. -/
def run (T : Trellis σ ι) (state : σ) (word : List ι) : σ := word.foldl T.next state

/-- The metric of a word read from `state` at a time, where `edge time state input` is the metric
of one edge. -/
def metric (T : Trellis σ ι) (edge : Nat → σ → ι → Int) : Nat → σ → List ι → Int
  | _, _, [] => 0
  | time, state, input :: word =>
      edge time state input + metric T edge (time + 1) (T.next state input) word

/-- A run over joined inputs continues from the state after the first. -/
theorem run_append (T : Trellis σ ι) (state : σ) (first second : List ι) :
    T.run state (first ++ second) = T.run (T.run state first) second :=
  List.foldl_append

/-- The metric of joined inputs is the sum, the second counted from where the first ends. -/
theorem metric_append (T : Trellis σ ι) (edge : Nat → σ → ι → Int) (time : Nat) (state : σ)
    (first second : List ι) :
    T.metric edge time state (first ++ second) = T.metric edge time state first +
      T.metric edge (time + first.length) (T.run state first) second := by
  induction first generalizing time state with
  | nil => simp [metric, run]
  | cons input first ih =>
      simp only [List.cons_append, metric, ih, List.length_cons, run, List.foldl_cons,
        Int.add_assoc]
      rw [show time + 1 + first.length = time + (first.length + 1) by omega]

/-- One forward step at a time: from the scores before it, the predecessors it picks and the
scores after it. `input state` is the input of every edge into `state`. -/
structure Relaxed (T : Trellis σ ι) (edge : Nat → σ → ι → Int) (input : σ → ι) (time : Nat)
    (scores : σ → Option Int) (predecessor : σ → σ) (scores' : σ → Option Int) : Prop where
  /-- Every new score comes from the picked predecessor. -/
  attained : ∀ state score, scores' state = some score →
    ∃ before, scores (predecessor state) = some before ∧
      T.next (predecessor state) (input state) = state ∧
      score = before + edge time (predecessor state) (input state)
  /-- No edge out of a reached state gives a better score. -/
  best : ∀ state bit before, scores state = some before →
    ∃ score, scores' (T.next state bit) = some score ∧ before + edge time state bit ≤ score

/-- A forward pass: the predecessors of its steps, newest first, and its current scores. -/
inductive Forward (T : Trellis σ ι) (edge : Nat → σ → ι → Int) (input : σ → ι) :
    List (σ → σ) → (σ → Option Int) → Prop where
  | start (scores : σ → Option Int) (hstart : scores T.start = some 0)
      (hother : ∀ state, state ≠ T.start → scores state = none) :
      Forward T edge input [] scores
  | step {history : List (σ → σ)} {scores scores' : σ → Option Int} {predecessor : σ → σ}
      (hpass : Forward T edge input history scores)
      (hstep : Relaxed T edge input history.length scores predecessor scores') :
      Forward T edge input (predecessor :: history) scores'

/-- The word read back from a state along the predecessors. -/
def survivor (input : σ → ι) : List (σ → σ) → σ → List ι
  | [], _ => []
  | predecessor :: history, state =>
      survivor input history (predecessor state) ++ [input state]

/-- A survivor has an input for every step of the history. -/
@[simp] theorem survivor_length (input : σ → ι) (history : List (σ → σ)) (state : σ) :
    (survivor input history state).length = history.length := by
  induction history generalizing state with
  | nil => rfl
  | cons predecessor history ih => simp [survivor, ih]

variable {T : Trellis σ ι} {edge : Nat → σ → ι → Int} {input : σ → ι}

/-- The survivor of a reached state leads to it, with the kept metric. -/
theorem Forward.survivor_metric {history : List (σ → σ)} {scores : σ → Option Int}
    (h : Forward T edge input history scores) {state : σ} {score : Int}
    (hscore : scores state = some score) :
    T.run T.start (survivor input history state) = state ∧
      T.metric edge 0 T.start (survivor input history state) = score := by
  induction h generalizing state score with
  | start scores hstart hother =>
      by_cases hstate : state = T.start
      · subst hstate
        exact ⟨rfl, Option.some.inj (hstart.symm.trans hscore)⟩
      · rw [hother state hstate] at hscore
        cases hscore
  | step hpass hstep ih =>
      obtain ⟨before, hbefore, hnext, rfl⟩ := hstep.attained state score hscore
      obtain ⟨hrun, hmetric⟩ := ih hbefore
      constructor
      · rw [survivor, run_append, hrun]
        exact hnext
      · rw [survivor, metric_append, hrun, hmetric, survivor_length]
        simp [metric]

/-- Every word reaches a state whose kept metric is at least the metric of the word. -/
theorem Forward.metric_le {history : List (σ → σ)} {scores : σ → Option Int}
    (h : Forward T edge input history scores) (word : List ι)
    (hlength : word.length = history.length) :
    ∃ score, scores (T.run T.start word) = some score ∧ T.metric edge 0 T.start word ≤ score := by
  induction h generalizing word with
  | start scores hstart hother =>
      obtain rfl := List.eq_nil_of_length_eq_zero hlength
      exact ⟨0, hstart, le_refl 0⟩
  | @step history scores scores' predecessor hpass hstep ih =>
      obtain ⟨first, last, rfl⟩ : ∃ first last, word = first ++ [last] :=
        ⟨word.dropLast, word.getLast (List.ne_nil_of_length_eq_add_one hlength),
          (List.dropLast_append_getLast _).symm⟩
      have hfirst : first.length = history.length := by simpa using hlength
      obtain ⟨before, hbefore, hle⟩ := ih first hfirst
      obtain ⟨score, hscore, hbest⟩ := hstep.best _ last before hbefore
      refine ⟨score, ?_, ?_⟩
      · rw [run_append]
        exact hscore
      · rw [metric_append, Nat.zero_add, hfirst]
        simp only [metric, Int.add_zero]
        omega

end Trellis

/-! ## Folds of point updates -/

/-- Reading one entry after a fold of updates only folds over the updates that touch it. -/
theorem foldl_read {σ ε ρ : Type} (step : σ → ε → σ) (read : σ → ρ) (touches : ε → Bool)
    (entry : ρ → ε → ρ)
    (h : ∀ state e, read (step state e) = if touches e then entry (read state) e else read state)
    (updates : List ε) (state : σ) :
    read (updates.foldl step state) = (updates.filter touches).foldl entry (read state) := by
  induction updates generalizing state with
  | nil => rfl
  | cons e updates ih =>
      rw [List.foldl_cons, ih, h, List.filter_cons]
      cases touches e <;> simp

end LatentMesh.Lib
