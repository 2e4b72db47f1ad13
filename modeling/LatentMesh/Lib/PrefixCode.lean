import Mathlib.Data.Set.Function
import Mathlib.Data.Set.Prod

/-!
# Prefix-free codes

A code is prefix-free on a set of values when a text that begins with the code of one of them tells
the value and the rest (`PrefixFreeOn`). Codes of one length are prefix-free. So are two prefix-free
codes behind each other, the items of a list behind their number, and an optional value behind a
flag.
-/

namespace LatentMesh.Lib

variable {α β σ : Type}

/-- A text that begins with the code of a value tells the value and the rest. -/
def PrefixFreeOn (code : α → List σ) (values : Set α) : Prop :=
  ∀ ⦃first⦄, first ∈ values → ∀ ⦃second⦄, second ∈ values → ∀ ⦃rest rest' : List σ⦄,
    code first ++ rest = code second ++ rest' → first = second ∧ rest = rest'

namespace PrefixFreeOn

variable {code : α → List σ} {code' : β → List σ} {values : Set α} {values' : Set β}

/-- Codes of one length end where the length ends. -/
theorem of_length {width : Nat} (hinj : Set.InjOn code values)
    (hlength : ∀ value ∈ values, (code value).length = width) : PrefixFreeOn code values := by
  intro first hfirst second hsecond rest rest' h
  have hsame : (code first).length = (code second).length :=
    (hlength first hfirst).trans (hlength second hsecond).symm
  obtain ⟨hcode, hrest⟩ := List.append_inj h hsame
  exact ⟨hinj hfirst hsecond hcode, hrest⟩

/-- A prefix-free code tells its values apart. -/
theorem inj_on (h : PrefixFreeOn code values) : Set.InjOn code values := by
  intro first hfirst second hsecond heq
  exact (h hfirst hsecond (congrArg (fun text => text ++ []) heq)).1

/-- Values that are coded as other values. -/
theorem comap {f : β → α} (h : PrefixFreeOn code values) (hmaps : Set.MapsTo f values' values)
    (hinj : Set.InjOn f values') : PrefixFreeOn (fun value => code (f value)) values' := by
  intro first hfirst second hsecond rest rest' heq
  obtain ⟨hvalue, hrest⟩ := h (hmaps hfirst) (hmaps hsecond) heq
  exact ⟨hinj hfirst hsecond hvalue, hrest⟩

/-- One code behind another. -/
theorem append (h : PrefixFreeOn code values) (h' : PrefixFreeOn code' values') :
    PrefixFreeOn (fun pair : α × β => code pair.1 ++ code' pair.2) (values ×ˢ values') := by
  rintro ⟨first, first'⟩ ⟨hfirst, hfirst'⟩ ⟨second, second'⟩ ⟨hsecond, hsecond'⟩ rest rest' heq
  rw [List.append_assoc, List.append_assoc] at heq
  obtain ⟨rfl, hback⟩ := h hfirst hsecond heq
  obtain ⟨rfl, hrest⟩ := h' hfirst' hsecond' hback
  exact ⟨rfl, hrest⟩

/-- As many items on either side. -/
theorem items_of_length_eq (h : PrefixFreeOn code values) {items others : List α}
    (hitems : ∀ item ∈ items, item ∈ values) (hothers : ∀ item ∈ others, item ∈ values)
    (hlength : items.length = others.length) {rest rest' : List σ}
    (heq : items.flatMap code ++ rest = others.flatMap code ++ rest') :
    items = others ∧ rest = rest' := by
  induction items generalizing others with
  | nil =>
      obtain rfl := List.length_eq_zero_iff.mp hlength.symm
      exact ⟨rfl, heq⟩
  | cons item items ih =>
      cases others with
      | nil => cases hlength
      | cons other others =>
          obtain ⟨hitem, hrestItems⟩ := List.forall_mem_cons.mp hitems
          obtain ⟨hother, hrestOthers⟩ := List.forall_mem_cons.mp hothers
          rw [List.flatMap_cons, List.flatMap_cons, List.append_assoc, List.append_assoc] at heq
          obtain ⟨rfl, hback⟩ := h hitem hother heq
          obtain ⟨rfl, hrest⟩ := ih hrestItems hrestOthers (Nat.succ.inj hlength) hback
          exact ⟨rfl, hrest⟩

/-- The items of a list behind their number. -/
theorem counted {count : Nat → List σ} {counts : Set Nat} (hcount : PrefixFreeOn count counts)
    (h : PrefixFreeOn code values) :
    PrefixFreeOn (fun items : List α => count items.length ++ items.flatMap code)
      {items | items.length ∈ counts ∧ ∀ item ∈ items, item ∈ values} := by
  rintro items ⟨hitemsCount, hitems⟩ others ⟨hothersCount, hothers⟩ rest rest' heq
  rw [List.append_assoc, List.append_assoc] at heq
  obtain ⟨hlength, hback⟩ := hcount hitemsCount hothersCount heq
  exact h.items_of_length_eq hitems hothers hlength hback

/-- An optional value behind a flag. -/
theorem optional {present absent : σ} (hne : present ≠ absent) (h : PrefixFreeOn code values) :
    PrefixFreeOn
      (fun value : Option α => (if value.isSome then present else absent) :: value.elim [] code)
      {value | ∀ inner ∈ value, inner ∈ values} := by
  intro first hfirst second hsecond rest rest' heq
  cases first with
  | none =>
      cases second with
      | none => exact ⟨rfl, List.tail_eq_of_cons_eq heq⟩
      | some inner => exact absurd (List.head_eq_of_cons_eq heq).symm hne
  | some inner =>
      cases second with
      | none => exact absurd (List.head_eq_of_cons_eq heq) hne
      | some other =>
          obtain ⟨rfl, hrest⟩ :=
            h (hfirst inner rfl) (hsecond other rfl) (List.tail_eq_of_cons_eq heq)
          exact ⟨rfl, hrest⟩

end PrefixFreeOn

end LatentMesh.Lib
