import Mathlib.Data.List.Basic

/-!
# Terminated fields

Fields with a separator behind each of them. Fields that do not contain the separator can be read
back, from a text that goes on behind them (`terminated_inj`) or is all of them
(`terminated_injective`).
-/

namespace LatentMesh.Lib

variable {α : Type} {sep : α}

/-- The first field is what stands before the first separator. -/
theorem field_inj {field other rest otherRest : List α} (hfield : sep ∉ field)
    (hother : sep ∉ other) (h : field ++ sep :: rest = other ++ sep :: otherRest) :
    field = other ∧ rest = otherRest := by
  induction field generalizing other with
  | nil =>
      cases other with
      | nil => exact ⟨rfl, (List.cons.inj h).2⟩
      | cons item other => exact absurd (List.mem_cons.mpr (Or.inl (List.cons.inj h).1)) hother
  | cons item field ih =>
      cases other with
      | nil => exact absurd (List.mem_cons.mpr (Or.inl (List.cons.inj h).1.symm)) hfield
      | cons otherItem other =>
          obtain ⟨rfl, htail⟩ := List.cons.inj h
          obtain ⟨rfl, hrest⟩ := ih (fun hmem => hfield (List.mem_cons_of_mem _ hmem))
            (fun hmem => hother (List.mem_cons_of_mem _ hmem)) htail
          exact ⟨rfl, hrest⟩

/-- The fields, each with a separator behind it. -/
def terminated (sep : α) (fields : List (List α)) : List α :=
  fields.flatMap fun field => field ++ [sep]

/-- Terminated fields begin with the first field and its separator. -/
theorem terminated_cons (sep : α) (field : List α) (fields : List (List α)) (rest : List α) :
    terminated sep (field :: fields) ++ rest = field ++ sep :: (terminated sep fields ++ rest) := by
  rw [terminated, List.flatMap_cons, List.append_assoc, List.append_assoc]
  rfl

/-- As many fields are read back. -/
theorem terminated_inj {fields others : List (List α)} {rest otherRest : List α}
    (hfields : ∀ field ∈ fields, sep ∉ field) (hothers : ∀ field ∈ others, sep ∉ field)
    (hlength : fields.length = others.length)
    (h : terminated sep fields ++ rest = terminated sep others ++ otherRest) :
    fields = others ∧ rest = otherRest := by
  induction fields generalizing others with
  | nil =>
      rw [List.length_nil, eq_comm, List.length_eq_zero_iff] at hlength
      subst hlength
      exact ⟨rfl, h⟩
  | cons field fields ih =>
      cases others with
      | nil => cases hlength
      | cons other otherFields =>
          obtain ⟨hfield, hfields⟩ := List.forall_mem_cons.mp hfields
          obtain ⟨hother, hotherFields⟩ := List.forall_mem_cons.mp hothers
          rw [List.length_cons, List.length_cons] at hlength
          rw [terminated_cons, terminated_cons] at h
          obtain ⟨rfl, htail⟩ := field_inj hfield hother h
          obtain ⟨rfl, hrest⟩ := ih hfields hotherFields (Nat.succ.inj hlength) htail
          exact ⟨rfl, hrest⟩

/-- All fields of a text are read back. -/
theorem terminated_injective {fields others : List (List α)}
    (hfields : ∀ field ∈ fields, sep ∉ field) (hothers : ∀ field ∈ others, sep ∉ field)
    (h : terminated sep fields = terminated sep others) : fields = others := by
  have hnil : ∀ (field : List α) (rest : List (List α)),
      terminated sep (field :: rest) ≠ terminated sep [] := by
    intro field rest h
    have hsep := terminated_cons sep field rest []
    rw [List.append_nil, h] at hsep
    exact absurd (hsep ▸ List.mem_append_right _ List.mem_cons_self) List.not_mem_nil
  induction fields generalizing others with
  | nil =>
      cases others with
      | nil => rfl
      | cons other others => exact absurd h.symm (hnil other others)
  | cons field fields ih =>
      cases others with
      | nil => exact absurd h (hnil field fields)
      | cons other others =>
          obtain ⟨hfield, hrestFields⟩ := List.forall_mem_cons.mp hfields
          obtain ⟨hother, hrestOthers⟩ := List.forall_mem_cons.mp hothers
          have hfirst := terminated_cons sep field fields []
          rw [h, terminated_cons, List.append_nil, List.append_nil] at hfirst
          obtain ⟨rfl, hrest⟩ := field_inj hother hfield hfirst
          rw [ih hrestFields hrestOthers hrest.symm]

/-- Items of one kind in front of items of another kind are read back. -/
theorem map_append_inj {β : Type} {f : β → α} (hf : Function.Injective f) {items others : List β}
    {tail otherTail : List α} (htail : ∀ item ∈ tail, ∀ b, f b ≠ item)
    (hotherTail : ∀ item ∈ otherTail, ∀ b, f b ≠ item)
    (h : items.map f ++ tail = others.map f ++ otherTail) : items = others ∧ tail = otherTail := by
  induction items generalizing others with
  | nil =>
      cases others with
      | nil => exact ⟨rfl, h⟩
      | cons other others =>
          rw [List.map_nil, List.nil_append] at h
          exact absurd rfl (htail (f other) (h ▸ List.mem_cons_self) other)
  | cons item items ih =>
      cases others with
      | nil =>
          rw [List.map_nil, List.nil_append] at h
          exact absurd rfl (hotherTail (f item) (h ▸ List.mem_cons_self) item)
      | cons other others =>
          obtain ⟨hitem, hrest⟩ := List.cons.inj h
          obtain ⟨rfl, rfl⟩ := ih hrest
          rw [hf hitem]
          exact ⟨rfl, rfl⟩

end LatentMesh.Lib
