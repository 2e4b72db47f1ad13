import LatentMesh.Lib.Json

/-!
# The canonical form of a receipt

`canonical` and `sortKeys` of `chain.mjs`. The canonical form of a value sorts the keys of its
objects so that their order does not matter, but not all of the value is in it: a member named
`__proto__` is assigned to the prototype of the sorted object, and an infinite number is written as
null. Two values with one canonical form are equal up to the order of their keys where the canonical
form shows them (`canonical_pins`), and everywhere exactly when these hidden parts are the same
(`same_iff_hidden`).
-/

namespace LatentMesh.Harness.Chain

open LatentMesh.Lib
open LatentMesh.Lib.Json (SameUpToKeyOrder SamePrinted)

/-- A member of an object. -/
abbrev Member := JsString × Json

/-! ## Sorting the keys -/

/-- The key that assigns to the prototype. -/
def protoKey : JsString := jsString "__proto__"

/-- The index that a property key stands for. -/
def arrayIndex (key : JsString) : Option Nat :=
  let index := key.foldl (fun index unit => index * 10 + (unit.toNat - 48)) 0
  if textUnits (Nat.toDigits 10 index) = key ∧ index < 2 ^ 32 - 1 then some index else none

/-- The order in which an object lists its own properties: indices come first. -/
def ownOrder (members : List Member) : List Member :=
  (members.filter fun member => (arrayIndex member.1).isSome).mergeSort
      (fun first second => (arrayIndex first.1).getD 0 ≤ (arrayIndex second.1).getD 0) ++
    members.filter fun member => !(arrayIndex member.1).isSome

/-- `Object.keys(value).sort()`, by 16-bit units. -/
def sortByKey (members : List Member) : List Member :=
  members.mergeSort fun first second => first.1 ≤ second.1

/-- `out[key] = ...` for one member after another. `out.__proto__` is not a property of `out`. -/
def assignAll (members : List Member) : List Member :=
  members.filter fun member => member.1 ≠ protoKey

mutual

/-- `sortKeys`. -/
def sortKeys : Json → Json
  | .array items => .array (sortItems items)
  | .object members => .object (ownOrder (assignAll (sortByKey (sortMembers members))))
  | value => value

/-- `value.map(sortKeys)`. -/
def sortItems : List Json → List Json
  | [] => []
  | item :: items => sortKeys item :: sortItems items

/-- The members with their values sorted. -/
def sortMembers : List Member → List Member
  | [] => []
  | (key, value) :: members => (key, sortKeys value) :: sortMembers members

end

/-- `canonical`. -/
def canonical (value : Json) : List Char := (sortKeys value).stringify

/-- Every item of an array is sorted. -/
theorem sort_items_eq_map (items : List Json) : sortItems items = items.map sortKeys := by
  induction items with
  | nil => rfl
  | cons item items ih => rw [sortItems, ih, List.map_cons]

/-- Every member of an object is sorted. -/
theorem sort_members_eq_map (members : List Member) :
    sortMembers members = members.map fun member => (member.1, sortKeys member.2) := by
  induction members with
  | nil => rfl
  | cons member members ih => rw [sortMembers, ih, List.map_cons]

/-- The order of own members is a permutation. -/
theorem own_order_perm (members : List Member) : (ownOrder members).Perm members := by
  refine List.Perm.trans (List.Perm.append (List.mergeSort_perm _ _) (List.Perm.refl _)) ?_
  exact List.filter_append_perm _ _

/-- Sorting keeps the kind. -/
theorem sort_keys_kind (value : Json) : (sortKeys value).kind = value.kind := by
  cases value <;> rfl

/-- Sorting the members sorts what is found. -/
theorem find_sort_members (members : List Member) (key : JsString) :
    Keyed.find Prod.fst (sortMembers members) key =
      (Keyed.find Prod.fst members key).map fun member => (member.1, sortKeys member.2) := by
  rw [sort_members_eq_map]
  unfold Keyed.find
  rw [List.find?_map]
  rfl

/-- The members that the sorted object has. -/
theorem find_sort_keys {members : List Member} (h : Keyed.Distinct Prod.fst members)
    (key : JsString) :
    Keyed.find Prod.fst (ownOrder (assignAll (sortByKey (sortMembers members)))) key =
      if key = protoKey then none
      else (Keyed.find Prod.fst members key).map fun member => (member.1, sortKeys member.2) := by
  have hsorted : Keyed.Distinct Prod.fst (sortMembers members) := by
    show ((sortMembers members).map Prod.fst).Nodup
    rw [sort_members_eq_map, List.map_map]
    exact h
  have hperm : (sortByKey (sortMembers members)).Perm (sortMembers members) :=
    List.mergeSort_perm _ _
  have hassigned : Keyed.Distinct Prod.fst (assignAll (sortByKey (sortMembers members))) :=
    (hsorted.perm hperm).sublist (List.filter_sublist.map Prod.fst)
  rw [Keyed.find_perm hassigned (own_order_perm _), ← find_sort_members,
    ← Keyed.find_perm hsorted hperm]
  exact Keyed.find_filter_ne protoKey key

/-! ## What the canonical form shows -/

/-- The path does not go through a member named `__proto__`. -/
def Visible (path : List Json.Step) : Prop := .key protoKey ∉ path

instance (path : List Json.Step) : Decidable (Visible path) := inferInstanceAs (Decidable (_ ∉ _))

/-- Sorting sorts what a visible step leads to. -/
theorem child_sort_keys {value : Json} (h : value.Distinct) {step : Json.Step}
    (hstep : step ≠ .key protoKey) :
    (sortKeys value).child step = (value.child step).map sortKeys := by
  cases value with
  | array items =>
      cases step with
      | key key => rfl
      | index index =>
          show (sortItems items)[index]? = items[index]?.map sortKeys
          rw [sort_items_eq_map, List.getElem?_map]
  | object members =>
      cases step with
      | index index => rfl
      | key key =>
          have hkey : key ≠ protoKey := fun heq => hstep (congrArg Json.Step.key heq)
          show (Keyed.find Prod.fst (ownOrder _) key).map Prod.snd =
            ((Keyed.find Prod.fst members key).map Prod.snd).map sortKeys
          rw [find_sort_keys h.keys, if_neg hkey, Option.map_map, Option.map_map]
          rfl
  | _ => rfl

/-- Sorting keeps the kinds at visible paths. -/
theorem kind_at_sort_keys {value : Json} (h : value.Distinct) {path : List Json.Step}
    (hpath : Visible path) : Json.kindAt path (sortKeys value) = Json.kindAt path value := by
  induction path generalizing value with
  | nil => exact congrArg some (sort_keys_kind value)
  | cons step path ih =>
      have hstep : step ≠ .key protoKey := fun heq => hpath (heq ▸ List.mem_cons_self ..)
      rw [Json.kind_at_cons, Json.kind_at_cons, child_sort_keys h hstep]
      cases hchild : value.child step with
      | none => rfl
      | some inner => exact ih (h.child hchild) fun hmem => hpath (List.mem_cons_of_mem _ hmem)

/-- The two values are the same where their canonical forms show them. -/
def SameVisible (first second : Json) : Prop :=
  ∀ path, Visible path →
    (Json.kindAt path first).map Json.Kind.printed =
      (Json.kindAt path second).map Json.Kind.printed

/-- One canonical form pins what it shows. -/
theorem canonical_pins {first second : Json} (hfirst : first.Distinct) (hsecond : second.Distinct)
    (h : canonical first = canonical second) : SameVisible first second := by
  have hend : Json.Delimited [] := fun c hc => nomatch hc
  obtain ⟨hsame, -⟩ := Json.stringify_unique _ _ hend hend (congrArg (· ++ []) h)
  intro path hpath
  rw [← kind_at_sort_keys hfirst hpath, ← kind_at_sort_keys hsecond hpath]
  exact hsame path

/-! ## What it hides -/

/-- An infinite number, which is printed as null. -/
def isInfinite : Json.Kind → Bool
  | .number (.infinite _) => true
  | _ => false

/-- What the value has at a path where the canonical form does not show it: what is under a member
named `__proto__`, and an infinite number. -/
def hiddenAt (path : List Json.Step) (value : Json) : Option Json.Kind :=
  if Visible path then (Json.kindAt path value).filter isInfinite else Json.kindAt path value

/-- The two values hide the same. -/
def SameHidden (first second : Json) : Prop := ∀ path, hiddenAt path first = hiddenAt path second

/-- Every other leaf is printed as it is. -/
theorem printed_eq_self {kind : Json.Kind} (h : isInfinite kind = false) : kind.printed = kind := by
  cases kind with
  | number value =>
      cases value with
      | infinite negative => cases h
      | _ => rfl
  | _ => rfl

/-- Leaves that are printed alike are alike unless one is infinite. -/
theorem kind_eq_of_printed_eq {first second : Option Json.Kind}
    (hprinted : first.map Json.Kind.printed = second.map Json.Kind.printed)
    (hinfinite : first.filter isInfinite = second.filter isInfinite) : first = second := by
  cases first with
  | none =>
      cases second with
      | none => rfl
      | some kind => cases hprinted
  | some kind =>
      cases second with
      | none => cases hprinted
      | some other =>
          rw [Option.filter_some, Option.filter_some] at hinfinite
          cases hkind : isInfinite kind <;> cases hother : isInfinite other <;>
            rw [hkind, hother] at hinfinite
          · have heq := Option.some.inj hprinted
            rw [printed_eq_self hkind, printed_eq_self hother] at heq
            rw [heq]
          · cases hinfinite
          · cases hinfinite
          · exact hinfinite

/-- Values that are the same where they are shown are the same if they hide the same. -/
theorem same_iff_hidden {first second : Json} (h : SameVisible first second) :
    SameUpToKeyOrder first second ↔ SameHidden first second := by
  constructor
  · intro hsame path
    unfold hiddenAt
    rw [hsame path]
  · intro hhidden path
    have hpath := hhidden path
    unfold hiddenAt at hpath
    by_cases hvisible : Visible path
    · rw [if_pos hvisible, if_pos hvisible] at hpath
      exact kind_eq_of_printed_eq (h path hvisible) hpath
    · rw [if_neg hvisible, if_neg hvisible] at hpath
      exact hpath

end LatentMesh.Harness.Chain
