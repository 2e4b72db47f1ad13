import Mathlib.Data.List.Basic
import LatentMesh.Lib.Guards

/-!
# Traversals that may fail

`mapM` of a function into `Option`: two of them in a row are one (`map_m_bind`), and a result stands
in the place of its element (`zip_of_map_m`). So it does with errors (`map_m_eq_ok_iff`).
-/

namespace LatentMesh.Lib

variable {α β γ : Type} {f : α → Option β} {items : List α} {results : List β}

/-- Two traversals one after the other are one traversal. -/
theorem map_m_bind (f : α → Option β) (g : β → Option γ) (items : List α) :
    ((items.mapM f).bind fun results => results.mapM g) =
      items.mapM fun item => (f item).bind g := by
  induction items with
  | nil => rfl
  | cons item items ih =>
      rw [List.mapM_cons, List.mapM_cons, ← ih]
      cases hfirst : f item with
      | none => rfl
      | some result =>
          cases hrest : items.mapM f with
          | none =>
              show none = (g result).bind fun _ => none
              cases g result <;> rfl
          | some results => exact List.mapM_cons

/-- A traversal that succeeds everywhere is a map. -/
theorem map_m_of_eq_some {g : α → β} (h : ∀ item ∈ items, f item = some (g item)) :
    items.mapM f = some (items.map g) := by
  induction items with
  | nil => rfl
  | cons item items ih =>
      obtain ⟨hfirst, hrest⟩ := List.forall_mem_cons.mp h
      rw [List.mapM_cons, hfirst, ih hrest]
      rfl

/-- Every element has its result, in the same place. -/
theorem zip_of_map_m (h : items.mapM f = some results) :
    results.length = items.length ∧ (∀ pair ∈ items.zip results, f pair.1 = some pair.2) ∧
      ∀ item ∈ items, ∃ result, (item, result) ∈ items.zip results := by
  induction items generalizing results with
  | nil =>
      cases h
      exact ⟨rfl, (fun pair hpair => nomatch hpair), fun item hitem => nomatch hitem⟩
  | cons item items ih =>
      rw [List.mapM_cons] at h
      obtain ⟨result, hfirst, hrest⟩ := Option.bind_eq_some_iff.mp h
      obtain ⟨rest, hmap, hresults⟩ := Option.bind_eq_some_iff.mp hrest
      cases hresults
      obtain ⟨hlength, hpairs, hall⟩ := ih hmap
      refine ⟨congrArg _ hlength, List.forall_mem_cons.mpr ⟨hfirst, hpairs⟩, fun other hother => ?_⟩
      rcases List.mem_cons.mp hother with rfl | hmem
      · exact ⟨result, List.mem_cons_self⟩
      · obtain ⟨found, hfound⟩ := hall other hmem
        exact ⟨found, List.mem_cons_of_mem _ hfound⟩

/-- A traversal succeeds when every item does, with the results in order. -/
theorem map_m_eq_ok_iff {ε : Type} {f : α → Except ε β} :
    items.mapM f = .ok results ↔
      List.Forall₂ (fun item result => f item = .ok result) items results := by
  induction items generalizing results with
  | nil =>
      constructor
      · intro h
        cases h
        exact .nil
      · intro h
        cases h
        rfl
  | cons item items ih =>
      rw [List.mapM_cons]
      refine bind_eq_ok_iff.trans ?_
      constructor
      · rintro ⟨result, hfirst, hrest⟩
        obtain ⟨rest, hmap, hresults⟩ := bind_eq_ok_iff.mp hrest
        cases hresults
        exact .cons hfirst (ih.mp hmap)
      · intro h
        cases h with
        | cons hfirst hrest => exact ⟨_, hfirst, bind_eq_ok_iff.mpr ⟨_, ih.mpr hrest, rfl⟩⟩

/-- A fold over fallible items is the traversal of the items and a fold over their results. -/
theorem foldlM_map_eq {ε δ : Type} (f : α → Except ε β) (step : δ → β → δ) (items : List α)
    (start : δ) :
    items.foldlM (fun state item => (f item).map (step state)) start =
      (items.mapM f).map fun results => results.foldl step start := by
  induction items generalizing start with
  | nil => rfl
  | cons item items ih =>
      rw [List.foldlM_cons, List.mapM_cons]
      cases hfirst : f item with
      | error error => rfl
      | ok result =>
          show items.foldlM _ (step start result) = _
          rw [ih]
          cases hrest : items.mapM f with
          | error error => rfl
          | ok results => rfl

/-- Every element has a related result. -/
theorem exists_of_forall₂ {R : α → β → Prop} (h : List.Forall₂ R items results) {item : α}
    (hmem : item ∈ items) : ∃ result ∈ results, R item result := by
  induction h with
  | nil => exact absurd hmem List.not_mem_nil
  | cons hfirst _ ih =>
      rcases List.mem_cons.mp hmem with rfl | hrest
      · exact ⟨_, List.mem_cons_self, hfirst⟩
      · obtain ⟨result, hresult, hfound⟩ := ih hrest
        exact ⟨result, List.mem_cons_of_mem _ hresult, hfound⟩

end LatentMesh.Lib
