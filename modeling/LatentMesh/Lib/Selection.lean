import Mathlib.Algebra.Order.Field.Basic
import Mathlib.Data.List.Induction

/-!
# Picking the best of a list

A loop that keeps the best score so far, and replaces it only by a larger one, ends with the
earliest of the maximal scores above its floor (`first_best_spec`, `scan_best_eq`). Items
without a score are passed over, and a common factor changes no choice (`first_best_scale`). A loop
that starts with nothing keeps the first of the largest eligible items (`is_champion_fold`).
-/

namespace LatentMesh.Lib

variable {K : Type} [LinearOrder K]

/-- The index and the score of the earliest of the maximal scores above a floor. -/
def firstBest (floor : K) : List (Option K) → Option (Nat × K)
  | [] => none
  | none :: scores => (firstBest floor scores).map fun best => (best.1 + 1, best.2)
  | some score :: scores =>
      if floor < score then
        some (((firstBest score scores).map fun best => (best.1 + 1, best.2)).getD (0, score))
      else (firstBest floor scores).map fun best => (best.1 + 1, best.2)

/-- The entry at an index is the earliest of the maximal scores, and above the floor. -/
structure IsFirstBest (floor : K) (scores : List (Option K)) (index : Nat) (score : K) : Prop where
  entry : scores[index]? = some (some score)
  above : floor < score
  maximal : ∀ (other : Nat) value, scores[other]? = some (some value) → value ≤ score
  earliest : ∀ (other : Nat) value, scores[other]? = some (some value) →
    other < index → value < score

/-- No score is above the floor. -/
def NoneAbove (floor : K) (scores : List (Option K)) : Prop :=
  ∀ (other : Nat) value, scores[other]? = some (some value) → value ≤ floor

variable {floor : K} {scores : List (Option K)}

/-- An entry that is not above the floor in front does not change the best. -/
theorem IsFirstBest.cons {first : Option K} {index : Nat} {score : K}
    (h : IsFirstBest floor scores index score)
    (hfirst : ∀ value, first = some value → value < score) :
    IsFirstBest floor (first :: scores) (index + 1) score := by
  refine ⟨h.entry, h.above, ?_, ?_⟩
  · rintro (_ | other) value hvalue
    · exact le_of_lt (hfirst value (Option.some.inj hvalue))
    · exact h.maximal other value hvalue
  · rintro (_ | other) value hvalue hlt
    · exact hfirst value (Option.some.inj hvalue)
    · exact h.earliest other value hvalue (Nat.lt_of_succ_lt_succ hlt)

/-- What the loop finds, in both cases. -/
theorem first_best_spec (floor : K) (scores : List (Option K)) :
    (∀ index score, firstBest floor scores = some (index, score) →
      IsFirstBest floor scores index score) ∧
    (firstBest floor scores = none → NoneAbove floor scores) := by
  induction scores generalizing floor with
  | nil =>
      constructor
      · intro index score h
        cases h
      · intro _ other value hvalue
        cases hvalue
  | cons first scores ih =>
      cases first with
      | none =>
          constructor
          · intro index score h
            rw [firstBest, Option.map_eq_some_iff] at h
            obtain ⟨⟨index, score⟩, hrest, heq⟩ := h
            cases heq
            exact ((ih floor).1 _ _ hrest).cons fun value hvalue => by cases hvalue
          · intro h
            rw [firstBest, Option.map_eq_none_iff] at h
            rintro (_ | other) value hvalue
            · cases hvalue
            · exact (ih floor).2 h other value hvalue
      | some first =>
          rw [firstBest]
          by_cases habove : floor < first
          · rw [if_pos habove]
            refine ⟨fun index score h => ?_, fun h => by cases h⟩
            cases hrest : firstBest first scores with
            | none =>
                -- the first score stays the best
                rw [hrest] at h
                obtain ⟨rfl, rfl⟩ := Prod.mk.inj (Option.some.inj h)
                refine ⟨rfl, habove, ?_, fun other value _ hlt => absurd hlt (Nat.not_lt_zero _)⟩
                rintro (_ | other) value hvalue
                · exact le_of_eq (Option.some.inj (Option.some.inj hvalue)).symm
                · exact (ih first).2 hrest other value hvalue
            | some best =>
                rw [hrest] at h
                obtain ⟨rfl, rfl⟩ := Prod.mk.inj (Option.some.inj h)
                have hbest := (ih first).1 _ _ hrest
                have hfloor : IsFirstBest floor scores best.1 best.2 :=
                  ⟨hbest.entry, lt_trans habove hbest.above, hbest.maximal, hbest.earliest⟩
                exact hfloor.cons fun value hvalue => Option.some.inj hvalue ▸ hbest.above
          · rw [if_neg habove]
            constructor
            · intro index score h
              rw [Option.map_eq_some_iff] at h
              obtain ⟨⟨index, score⟩, hrest, heq⟩ := h
              cases heq
              have hbest := (ih floor).1 _ _ hrest
              exact hbest.cons fun value hvalue =>
                lt_of_le_of_lt (Option.some.inj hvalue ▸ not_lt.mp habove) hbest.above
            · intro h
              rw [Option.map_eq_none_iff] at h
              rintro (_ | other) value hvalue
              · exact Option.some.inj (Option.some.inj hvalue) ▸ not_lt.mp habove
              · exact (ih floor).2 h other value hvalue

section Scan

variable {γ ρ : Type} (score : γ → Option K) (pick : γ → ρ)

/-- A turn of a loop that keeps what it picked last and its score. -/
def scanStep (best : ρ × K) (item : γ) : ρ × K :=
  match score item with
  | some value => if best.2 < value then (pick item, value) else best
  | none => best

/-- A scan that keeps the better of the best so far and the next item. -/
def scanBest (best : ρ × K) (items : List γ) : ρ × K := items.foldl (scanStep score pick) best

/-- The loop ends with the first best item, or with what it started from. -/
theorem scan_best_eq (best : ρ × K) (items : List γ) :
    scanBest score pick best items =
      match firstBest best.2 (items.map score) with
      | none => best
      | some (index, value) => ((items[index]?.map pick).getD best.1, value) := by
  induction items generalizing best with
  | nil => rfl
  | cons item items ih =>
      rw [scanBest, List.foldl_cons, ← scanBest, ih, List.map_cons, scanStep]
      cases hscore : score item with
      | none =>
          dsimp only
          rw [firstBest]
          cases firstBest best.2 (items.map score) <;> rfl
      | some value =>
          dsimp only
          rw [firstBest]
          by_cases habove : best.2 < value
          · rw [if_pos habove, if_pos habove]
            cases hfound : firstBest value (items.map score) with
            | none => rfl
            | some found =>
                -- the best of the rest is an item of the rest
                have hentry := ((first_best_spec _ _).1 _ _ hfound).entry
                rw [List.getElem?_map, Option.map_eq_some_iff] at hentry
                obtain ⟨item', hitem, -⟩ := hentry
                simp [hitem]
          · rw [if_neg habove, if_neg habove]
            cases firstBest best.2 (items.map score) <;> rfl

/-- The score that the loop ends with depends on the scores alone. -/
theorem scan_best_score (start : ρ) (floor : K) (items : List γ) :
    (scanBest score pick (start, floor) items).2 =
      ((firstBest floor (items.map score)).map Prod.snd).getD floor := by
  rw [scan_best_eq]
  cases firstBest floor (items.map score) <;> rfl

end Scan

section Improve

variable {γ : Type} (eligible : γ → Prop) [DecidablePred eligible] (number : γ → K)

/-- A turn of a loop that replaces what it holds by eligible items with a larger number only. -/
def improve (best : Option γ) (item : γ) : Option γ :=
  if (∀ held ∈ best, number held < number item) ∧ eligible item then some item else best

/-- The first of the largest eligible items, or nothing where no item is eligible. -/
structure IsChampion (items : List γ) (best : Option γ) : Prop where
  without : best = none → ∀ item ∈ items, ¬ eligible item
  held : ∀ held, best = some held → ∃ before after, items = before ++ held :: after ∧
    eligible held ∧ (∀ item ∈ before, eligible item → number item < number held) ∧
    ∀ item ∈ after, eligible item → number item ≤ number held

/-- The fold of improvements ends with a champion of all items. -/
theorem is_champion_fold (items : List γ) :
    IsChampion eligible number items (items.foldl (improve eligible number) none) := by
  induction items using List.reverseRecOn with
  | nil => exact ⟨fun _ _ hitem => absurd hitem List.not_mem_nil, fun _ h => by cases h⟩
  | append_singleton items item ih =>
      rw [List.foldl_append, List.foldl_cons, List.foldl_nil, improve]
      cases hbest : items.foldl (improve eligible number) none with
      | none =>
          have hnone := ih.without hbest
          by_cases heligible : eligible item
          · rw [if_pos ⟨(fun _ h => by cases h), heligible⟩]
            refine ⟨(fun h => by cases h), fun held hheld => ?_⟩
            obtain rfl := Option.some.inj hheld
            exact ⟨items, [], rfl, heligible, fun other hother h => absurd h (hnone other hother),
              fun _ hother => absurd hother List.not_mem_nil⟩
          · rw [if_neg fun h => heligible h.2]
            refine ⟨fun _ other hother => ?_, fun _ h => by cases h⟩
            rcases List.mem_append.mp hother with hold | hnew
            · exact hnone other hold
            · exact List.mem_singleton.mp hnew ▸ heligible
      | some best =>
          obtain ⟨before, after, hitems, hheld, hbefore, hafter⟩ := ih.held best hbest
          by_cases hbetter : number best < number item ∧ eligible item
          · rw [if_pos ⟨fun held h => Option.some.inj h ▸ hbetter.1, hbetter.2⟩]
            refine ⟨(fun h => by cases h), fun held h => ?_⟩
            obtain rfl := Option.some.inj h
            refine ⟨items, [], rfl, hbetter.2, fun other hother heligible => ?_,
              fun _ hother => absurd hother List.not_mem_nil⟩
            rw [hitems] at hother
            rcases List.mem_append.mp hother with hold | hrest
            · exact lt_trans (hbefore other hold heligible) hbetter.1
            · rcases List.mem_cons.mp hrest with rfl | hlater
              · exact hbetter.1
              · exact lt_of_le_of_lt (hafter other hlater heligible) hbetter.1
          · rw [if_neg fun h => hbetter ⟨h.1 best rfl, h.2⟩]
            refine ⟨(fun h => by cases h), fun held h => ?_⟩
            obtain rfl := Option.some.inj h
            refine ⟨before, after ++ [item], by rw [hitems, List.append_assoc, List.cons_append],
              hheld, hbefore, fun other hother heligible => ?_⟩
            rcases List.mem_append.mp hother with hlater | hnew
            · exact hafter other hlater heligible
            · obtain rfl := List.mem_singleton.mp hnew
              exact not_lt.mp fun hlt => hbetter ⟨hlt, heligible⟩

/-- An eligible item is no better than the champion. -/
theorem IsChampion.le {eligible : γ → Prop} {number : γ → K} {items : List γ} {best : Option γ}
    (h : IsChampion eligible number items best) {item : γ} (hitem : item ∈ items)
    (heligible : eligible item) : ∃ held, best = some held ∧ number item ≤ number held := by
  cases hbest : best with
  | none => exact absurd heligible (h.without hbest item hitem)
  | some held =>
      obtain ⟨before, after, rfl, -, hbefore, hafter⟩ := h.held held hbest
      refine ⟨held, rfl, ?_⟩
      rcases List.mem_append.mp hitem with hfirst | hrest
      · exact le_of_lt (hbefore item hfirst heligible)
      · rcases List.mem_cons.mp hrest with rfl | hlater
        · exact le_refl _
        · exact hafter item hlater heligible

end Improve

section Scale

variable {F : Type} [Field F] [LinearOrder F] [IsStrictOrderedRing F]

/-- Scores that are multiplied by a positive factor have the same best. -/
theorem first_best_scale {factor : F} (hfactor : 0 < factor) (floor : F)
    (scores : List (Option F)) :
    firstBest (factor * floor) (scores.map (Option.map (factor * ·))) =
      (firstBest floor scores).map fun best => (best.1, factor * best.2) := by
  induction scores generalizing floor with
  | nil => rfl
  | cons first scores ih =>
      cases first with
      | none =>
          rw [List.map_cons, Option.map_none, firstBest, firstBest, ih]
          cases firstBest floor scores <;> rfl
      | some first =>
          rw [List.map_cons, Option.map_some, firstBest, firstBest, ih, ih]
          by_cases habove : floor < first
          · rw [if_pos habove, if_pos ((mul_lt_mul_iff_right₀ hfactor).mpr habove)]
            cases firstBest first scores <;> rfl
          · rw [if_neg habove, if_neg fun h => habove ((mul_lt_mul_iff_right₀ hfactor).mp h)]
            cases firstBest floor scores <;> rfl

end Scale

end LatentMesh.Lib
