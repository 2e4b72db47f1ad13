import Mathlib.Data.Prod.Lex
import Mathlib.Data.String.Basic
import LatentMesh.Federation.Rule
import LatentMesh.Lib.SortedMap

/-!
# World models

The local dynamics table of a node and its held-out log (`model.rs`). A candidate rule scores on the
log as it does once it is installed (`holdout_scores_install`), so what a score promises is what an
installation brings.
-/

namespace LatentMesh.Federation

open LatentMesh.Lib

/-- One observed transition. -/
structure Transition where
  pre : String
  action : String
  post : String
  deriving DecidableEq

/-- The key of a rule in the table. -/
def TransitionRule.key (rule : TransitionRule) : String ×ₗ String := toLex (rule.pre, rule.action)

/-- The rules are stored under their own keys: `install` is their only writer. -/
structure WorldModel where
  rules : SortedMap (String ×ₗ String) TransitionRule
  holdout : List Transition
  keyed : ∀ key rule, rules.find key = some rule → rule.key = key

namespace WorldModel

/-- `WorldModel::new`. -/
def new : WorldModel where
  rules := .empty
  holdout := []
  keyed _ _ h := nomatch h

/-- `WorldModel::install`. -/
def install (self : WorldModel) (rule : TransitionRule) : WorldModel where
  rules := self.rules.insert rule.key rule
  holdout := self.holdout
  keyed key found h := by
    rcases SortedMap.find_insert_eq_some_iff.mp h with ⟨hkey, rfl⟩ | ⟨-, hold⟩
    · exact hkey
    · exact self.keyed key found hold

/-- `WorldModel::remove`. -/
def remove (self : WorldModel) (pre action : String) : WorldModel where
  rules := self.rules.erase (toLex (pre, action))
  holdout := self.holdout
  keyed key found h := by
    rw [SortedMap.find_erase] at h
    split at h
    · exact self.keyed key found h
    · cases h

/-- `rules`, the installed rules in the order of their keys. -/
def installed (self : WorldModel) : List TransitionRule := self.rules.entries.map Prod.snd

/-- `WorldModel::predict`. -/
def predict (self : WorldModel) (pre action : String) : Option String :=
  (self.rules.find (toLex (pre, action))).map TransitionRule.post

/-- `WorldModel::record_holdout`. -/
def recordHoldout (self : WorldModel) (transition : Transition) : WorldModel :=
  { self with holdout := self.holdout ++ [transition] }

/-- The prediction for a transition, with a candidate rule laid over the table. -/
def predicted (self : WorldModel) (candidate : Option TransitionRule) (t : Transition) :
    Option String :=
  match candidate with
  | some c =>
      if c.pre = t.pre ∧ c.action = t.action then some c.post else self.predict t.pre t.action
  | none => self.predict t.pre t.action

/-- `WorldModel::holdout_scores`. -/
def holdoutScores (self : WorldModel) (candidate : Option TransitionRule) : List ℚ :=
  self.holdout.map fun t => if self.predicted candidate t = some t.post then 1 else 0

/-! ## Installed rules -/

variable {self : WorldModel} {rule other : TransitionRule}

/-- The installed rules stand under their keys. -/
theorem mem_installed_iff : rule ∈ self.installed ↔ self.rules.find rule.key = some rule := by
  rw [installed, List.mem_map]
  constructor
  · rintro ⟨⟨key, found⟩, hentry, rfl⟩
    have hfind := (SortedMap.mem_entries_iff _ _ _).mp hentry
    rwa [self.keyed key found hfind]
  · intro hfind
    exact ⟨(rule.key, rule), (SortedMap.mem_entries_iff _ _ _).mpr hfind, rfl⟩

/-- An installation adds its rule only. -/
theorem mem_installed_install (h : other ∈ (self.install rule).installed) :
    other = rule ∨ other ∈ self.installed := by
  rw [mem_installed_iff] at h
  rcases SortedMap.find_insert_eq_some_iff.mp h with ⟨-, heq⟩ | ⟨-, hold⟩
  · exact Or.inl heq.symm
  · exact Or.inr (mem_installed_iff.mpr hold)

/-- A removal adds no rule. -/
theorem mem_installed_remove {pre action : String}
    (h : other ∈ (self.remove pre action).installed) : other ∈ self.installed := by
  rw [mem_installed_iff] at h ⊢
  have hfind : (self.rules.erase (toLex (pre, action))).find other.key = some other := h
  rw [SortedMap.find_erase] at hfind
  split at hfind
  · exact hfind
  · cases hfind

/-- The key of a rule is its condition and action. -/
theorem key_eq_iff {pre action : String} :
    rule.key = toLex (pre, action) ↔ rule.pre = pre ∧ rule.action = action := by
  rw [TransitionRule.key, toLex_inj, Prod.mk.injEq]

/-! ## Scores -/

/-- A candidate predicts what it predicts once it is installed. -/
theorem predicted_install (self : WorldModel) (rule : TransitionRule) (t : Transition) :
    (self.install rule).predicted none t = self.predicted (some rule) t := by
  show ((self.rules.insert rule.key rule).find _).map _ = _
  rw [SortedMap.find_insert, predicted]
  by_cases hkey : rule.pre = t.pre ∧ rule.action = t.action
  · rw [if_pos (key_eq_iff.mpr hkey), if_pos hkey]
    rfl
  · rw [if_neg (mt key_eq_iff.mp hkey), if_neg hkey]
    rfl

/-- The scores with a candidate are those after its installation. -/
theorem holdout_scores_install (self : WorldModel) (rule : TransitionRule) :
    (self.install rule).holdoutScores none = self.holdoutScores (some rule) := by
  show self.holdout.map _ = self.holdout.map _
  simp only [predicted_install]

/-- The held-out transitions that are predicted right. -/
def hits (self : WorldModel) (candidate : Option TransitionRule) : Nat :=
  self.holdout.countP fun t => self.predicted candidate t = some t.post

/-- The scores add up to the transitions that are predicted right. -/
theorem sum_holdout_scores (self : WorldModel) (candidate : Option TransitionRule) :
    (self.holdoutScores candidate).sum = self.hits candidate := by
  rw [holdoutScores, hits]
  induction self.holdout with
  | nil => rfl
  | cons t rest ih =>
      rw [List.map_cons, List.sum_cons, ih, List.countP_cons, Nat.cast_add, add_comm]
      by_cases hright : self.predicted candidate t = some t.post
      · rw [if_pos hright, if_pos (decide_eq_true hright), Nat.cast_one]
      · rw [if_neg hright, if_neg (by simpa using hright), Nat.cast_zero]

/-- No more transitions are predicted right than there are. -/
theorem hits_le (self : WorldModel) (candidate : Option TransitionRule) :
    self.hits candidate ≤ self.holdout.length :=
  List.countP_le_length

/-- The hits with a candidate are those after its installation. -/
theorem hits_install (self : WorldModel) (rule : TransitionRule) :
    (self.install rule).hits none = self.hits (some rule) := by
  show self.holdout.countP _ = self.holdout.countP _
  simp only [predicted_install]

/-- A new held-out transition counts when the table already predicts it. -/
theorem hits_record_holdout (self : WorldModel) (t : Transition) :
    (self.recordHoldout t).hits none =
      self.hits none + if self.predict t.pre t.action = some t.post then 1 else 0 := by
  show (self.holdout ++ [t]).countP _ = _
  rw [List.countP_append, List.countP_singleton]
  simp only [decide_eq_true_eq]
  rfl

end WorldModel

end LatentMesh.Federation
