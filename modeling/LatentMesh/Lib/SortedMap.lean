import Mathlib.Data.List.Perm.Subperm
import Mathlib.Order.Lattice

/-!
# Sorted maps

A finite map as a list of entries with strictly increasing keys, so that two maps with equal
look-ups are equal (`ext_find`). `splice` joins the entries of one map below a key with the entries
of another map from that key on: it is the state of an ordered replay of the differences between
the two.
-/

namespace LatentMesh.Lib

/-- A finite map with strictly increasing keys. -/
structure SortedMap (κ α : Type) [LinearOrder κ] where
  entries : List (κ × α)
  sorted : entries.Pairwise fun left right => left.1 < right.1
  deriving DecidableEq

namespace SortedMap

variable {κ α : Type} [LinearOrder κ]

/-- The map without entries. -/
def empty : SortedMap κ α := ⟨[], .nil⟩

/-- Look a key up in a list of entries. -/
def lookup (key : κ) : List (κ × α) → Option α
  | [] => none
  | entry :: rest => if entry.1 = key then some entry.2 else lookup key rest

/-- Insert or replace an entry, in key order. -/
def insertEntry (key : κ) (value : α) : List (κ × α) → List (κ × α)
  | [] => [(key, value)]
  | entry :: rest =>
      if key < entry.1 then (key, value) :: entry :: rest
      else if entry.1 = key then (key, value) :: rest
      else entry :: insertEntry key value rest

/-- An entry after an insertion is the new one or an old one. -/
theorem mem_insert_entry {key : κ} {value : α} {entries : List (κ × α)} {entry : κ × α}
    (h : entry ∈ insertEntry key value entries) : entry = (key, value) ∨ entry ∈ entries := by
  induction entries with
  | nil => exact Or.inl (by simpa [insertEntry] using h)
  | cons first rest ih =>
      rw [insertEntry] at h
      split at h
      · simpa using h
      · split at h
        · rcases List.mem_cons.mp h with rfl | hrest
          · exact Or.inl rfl
          · exact Or.inr (List.mem_cons_of_mem _ hrest)
        · rcases List.mem_cons.mp h with rfl | hrest
          · exact Or.inr (List.mem_cons_self ..)
          · exact (ih hrest).imp id (List.mem_cons_of_mem _)

/-- An insertion keeps the keys sorted. -/
theorem insert_entry_sorted (key : κ) (value : α) {entries : List (κ × α)}
    (h : entries.Pairwise fun left right => left.1 < right.1) :
    (insertEntry key value entries).Pairwise fun left right => left.1 < right.1 := by
  induction entries with
  | nil => simp [insertEntry]
  | cons first rest ih =>
      obtain ⟨hfirst, hrest⟩ := List.pairwise_cons.mp h
      rw [insertEntry]
      split
      · rename_i hlt
        refine List.pairwise_cons.mpr ⟨fun entry hentry => ?_, h⟩
        rcases List.mem_cons.mp hentry with rfl | hmem
        · exact hlt
        · exact lt_trans hlt (hfirst entry hmem)
      · split
        · rename_i heq
          subst heq
          exact List.pairwise_cons.mpr ⟨hfirst, hrest⟩
        · rename_i hnot hne
          refine List.pairwise_cons.mpr ⟨fun entry hentry => ?_, ih hrest⟩
          rcases mem_insert_entry hentry with rfl | hmem
          · exact lt_of_le_of_ne (not_lt.mp hnot) hne
          · exact hfirst entry hmem

/-- A lookup after an insertion finds the new value under its key and the old ones elsewhere. -/
theorem lookup_insert_entry (key : κ) (value : α) (entries : List (κ × α)) (other : κ) :
    lookup other (insertEntry key value entries) =
      if key = other then some value else lookup other entries := by
  induction entries with
  | nil => simp [insertEntry, lookup]
  | cons first rest ih =>
      rw [insertEntry]
      split
      · rw [lookup]
      · split
        · rename_i heq
          subst heq
          simp only [lookup]
          split <;> rfl
        · rename_i hne
          simp only [lookup, ih]
          by_cases hfirst : first.1 = other
          · subst hfirst
            rw [if_pos rfl, if_neg (fun h => hne h.symm), if_pos rfl]
          · rw [if_neg hfirst, if_neg hfirst]

/-- A lookup in the kept entries. -/
theorem lookup_filter (keep : κ → Bool) (entries : List (κ × α)) (key : κ) :
    lookup key (entries.filter fun entry => keep entry.1) =
      if keep key then lookup key entries else none := by
  induction entries with
  | nil => simp [lookup]
  | cons first rest ih =>
      rw [List.filter_cons]
      by_cases hkey : first.1 = key
      · subst hkey
        cases hkeep : keep first.1 with
        | false => simp [ih, hkeep]
        | true => simp [lookup]
      · cases keep first.1 <;> simp [lookup, hkey, ih]

/-- A lookup in joined entries takes the first that is found. -/
theorem lookup_append (first second : List (κ × α)) (key : κ) :
    lookup key (first ++ second) = (lookup key first).or (lookup key second) := by
  induction first with
  | nil => rfl
  | cons entry first ih =>
      simp only [List.cons_append, lookup]
      split
      · rfl
      · exact ih

/-- A list of entries holds a key it finds, and nothing else under sorted keys. -/
theorem mem_iff_lookup {entries : List (κ × α)}
    (h : entries.Pairwise fun left right => left.1 < right.1) (key : κ) (value : α) :
    (key, value) ∈ entries ↔ lookup key entries = some value := by
  induction entries with
  | nil => simp [lookup]
  | cons first rest ih =>
      obtain ⟨hfirst, hrest⟩ := List.pairwise_cons.mp h
      rw [List.mem_cons, lookup, ih hrest]
      by_cases hkey : first.1 = key
      · subst hkey
        rw [if_pos rfl]
        constructor
        · rintro (heq | hmem)
          · exact congrArg some (congrArg Prod.snd heq).symm
          · exact absurd (hfirst _ ((ih hrest).mpr hmem)) (lt_irrefl _)
        · intro hvalue
          exact Or.inl (Prod.ext rfl (Option.some.inj hvalue).symm)
      · rw [if_neg hkey]
        refine or_iff_right fun heq => hkey ?_
        rw [← heq]

/-- A new key adds an entry. -/
theorem insert_entry_length_of_none {key : κ} (value : α) {entries : List (κ × α)}
    (h : lookup key entries = none) :
    (insertEntry key value entries).length = entries.length + 1 := by
  induction entries with
  | nil => rfl
  | cons first rest ih =>
      have hne : first.1 ≠ key := fun heq => by simp [lookup, heq] at h
      rw [lookup, if_neg hne] at h
      rw [insertEntry, if_neg hne]
      split
      · rfl
      · rw [List.length_cons, ih h, List.length_cons]

/-- A key that is there adds no entry. -/
theorem insert_entry_length_of_some {key : κ} (value : α) {found : α} {entries : List (κ × α)}
    (hsorted : entries.Pairwise fun left right => left.1 < right.1)
    (h : lookup key entries = some found) :
    (insertEntry key value entries).length = entries.length := by
  induction entries with
  | nil => cases h
  | cons first rest ih =>
      obtain ⟨hfirst, hrest⟩ := List.pairwise_cons.mp hsorted
      by_cases heq : first.1 = key
      · rw [insertEntry, if_neg (not_lt.mpr (le_of_eq heq)), if_pos heq]
        rfl
      · rw [lookup, if_neg heq] at h
        have hlt : first.1 < key := hfirst _ ((mem_iff_lookup hrest key found).mpr h)
        rw [insertEntry, if_neg (lt_asymm hlt), if_neg heq, List.length_cons, ih hrest h,
          List.length_cons]

/-! ## Maps -/

/-- The value that is stored under a key. -/
def find (map : SortedMap κ α) (key : κ) : Option α := lookup key map.entries

/-- The number of entries. -/
def size (map : SortedMap κ α) : Nat := map.entries.length

/-- The map with a value stored under a key, in place of an old one. -/
def insert (map : SortedMap κ α) (key : κ) (value : α) : SortedMap κ α :=
  ⟨insertEntry key value map.entries, insert_entry_sorted key value map.sorted⟩

/-- The map without the entry of a key. -/
def erase (map : SortedMap κ α) (key : κ) : SortedMap κ α :=
  ⟨map.entries.filter fun entry => decide (entry.1 ≠ key), map.sorted.filter _⟩

/-- The entries of a map are what is found in it. -/
theorem mem_entries_iff (map : SortedMap κ α) (key : κ) (value : α) :
    (key, value) ∈ map.entries ↔ map.find key = some value :=
  mem_iff_lookup map.sorted key value

/-- What is found after an insertion. -/
@[simp] theorem find_insert (map : SortedMap κ α) (key : κ) (value : α) (other : κ) :
    (map.insert key value).find other = if key = other then some value else map.find other :=
  lookup_insert_entry key value map.entries other

/-- An inserted value is found. -/
theorem find_insert_self (map : SortedMap κ α) (key : κ) (value : α) :
    (map.insert key value).find key = some value :=
  (find_insert map key value key).trans (if_pos rfl)

/-- What is found after an insertion is the new value or an old one under another key. -/
theorem find_insert_eq_some_iff {map : SortedMap κ α} {key other : κ} {value found : α} :
    (map.insert key value).find other = some found ↔
      key = other ∧ value = found ∨ key ≠ other ∧ map.find other = some found := by
  rw [find_insert]
  split
  · rename_i heq
    simp [heq]
  · rename_i hne
    simp [hne]

/-- What is found after an erasure. -/
@[simp] theorem find_erase (map : SortedMap κ α) (key other : κ) :
    (map.erase key).find other = if other ≠ key then map.find other else none := by
  have hfilter := lookup_filter (fun k => decide (k ≠ key)) map.entries other
  simp only [decide_eq_true_eq] at hfilter
  exact hfilter

/-- `BTreeMap::retain`. -/
def retain (map : SortedMap κ α) (keep : κ → α → Bool) : SortedMap κ α :=
  ⟨map.entries.filter fun entry => keep entry.1 entry.2, map.sorted.filter _⟩

/-- What is found after `retain` was found before and is kept. -/
theorem find_retain_eq_some_iff {map : SortedMap κ α} {keep : κ → α → Bool} {key : κ} {value : α} :
    (map.retain keep).find key = some value ↔
      map.find key = some value ∧ keep key value = true := by
  rw [← mem_entries_iff, ← mem_entries_iff]
  exact List.mem_filter

/-- An erasure keeps all entries of other keys. -/
theorem erase_eq_retain (map : SortedMap κ α) (key : κ) :
    map.erase key = map.retain fun other _ => decide (other ≠ key) := rfl

/-- Maps with equal look-ups are equal. -/
theorem ext_find {left right : SortedMap κ α} (h : ∀ key, left.find key = right.find key) :
    left = right := by
  obtain ⟨first, hfirst⟩ := left
  obtain ⟨second, hsecond⟩ := right
  have hmem : ∀ entry, entry ∈ first ↔ entry ∈ second := fun entry => by
    rw [mem_iff_lookup hfirst entry.1 entry.2, mem_iff_lookup hsecond entry.1 entry.2]
    exact iff_of_eq (congrArg (· = some entry.2) (h entry.1))
  have hnodup : ∀ {entries : List (κ × α)},
      entries.Pairwise (fun left right => left.1 < right.1) → entries.Nodup :=
    fun hsorted => hsorted.imp fun hlt heq => absurd hlt (by rw [heq]; exact lt_irrefl _)
  have hperm : first.Perm second :=
    (List.perm_ext_iff_of_nodup (hnodup hfirst) (hnodup hsecond)).mpr hmem
  have heq : first = second := hperm.eq_of_pairwise
    (fun a b _ _ hab hba => absurd hab (lt_asymm hba)) hfirst hsecond
  subst heq
  rfl

/-- Inserting a new key adds one entry. -/
theorem size_insert_of_none {map : SortedMap κ α} {key : κ} (value : α)
    (h : map.find key = none) : (map.insert key value).size = map.size + 1 :=
  insert_entry_length_of_none value h

/-- Replacing a value adds none. -/
theorem size_insert_of_some {map : SortedMap κ α} {key : κ} (value : α) {found : α}
    (h : map.find key = some found) : (map.insert key value).size = map.size :=
  insert_entry_length_of_some value map.sorted h

/-- A list of the keys, each once, is as long as the map. -/
theorem size_eq_length {map : SortedMap κ α} {keys : List κ} (hnodup : keys.Nodup)
    (hmem : ∀ key, key ∈ keys ↔ (map.find key).isSome = true) : map.size = keys.length := by
  have hkeys : (map.entries.map Prod.fst).Nodup :=
    List.pairwise_map.mpr (map.sorted.imp fun hlt => ne_of_lt hlt)
  have hperm : (map.entries.map Prod.fst).Perm keys := by
    refine (List.perm_ext_iff_of_nodup hkeys hnodup).mpr fun key => ?_
    rw [hmem, List.mem_map, Option.isSome_iff_exists]
    constructor
    · rintro ⟨⟨_, value⟩, hentry, rfl⟩
      exact ⟨value, (mem_entries_iff map _ value).mp hentry⟩
    · rintro ⟨value, hfind⟩
      exact ⟨(key, value), (mem_entries_iff map key value).mpr hfind, rfl⟩
  rw [← hperm.length_eq, List.length_map]
  rfl

/-- A list with all keys is at least as long as the map. -/
theorem size_le_length {map : SortedMap κ α} {keys : List κ}
    (hmem : ∀ key, (map.find key).isSome = true → key ∈ keys) : map.size ≤ keys.length := by
  have hkeys : (map.entries.map Prod.fst).Nodup :=
    List.pairwise_map.mpr (map.sorted.imp fun hlt => ne_of_lt hlt)
  have hsubset : map.entries.map Prod.fst ⊆ keys := by
    intro key hkey
    obtain ⟨⟨_, value⟩, hentry, rfl⟩ := List.mem_map.mp hkey
    exact hmem _ (Option.isSome_iff_exists.mpr ⟨value, (mem_entries_iff map _ value).mp hentry⟩)
  have hlength := (hkeys.subperm hsubset).length_le
  rwa [List.length_map] at hlength

/-- An erasure adds no entry. -/
theorem size_erase_le (map : SortedMap κ α) (key : κ) : (map.erase key).size ≤ map.size :=
  List.length_filter_le _ _

/-! ## Splicing two maps -/

/-- The entries of `after` below a key, and those of `before` from the key on. -/
def splice (before after : SortedMap κ α) (key : κ) : SortedMap κ α where
  entries := (after.entries.filter fun entry => decide (entry.1 < key)) ++
    before.entries.filter fun entry => decide (key ≤ entry.1)
  sorted := by
    rw [List.pairwise_append]
    refine ⟨after.sorted.filter _, before.sorted.filter _, fun left hleft right hright => ?_⟩
    have hlt : left.1 < key := by simpa using (List.mem_filter.mp hleft).2
    have hle : key ≤ right.1 := by simpa using (List.mem_filter.mp hright).2
    exact lt_of_lt_of_le hlt hle

/-- A spliced map is the second one below the key and the first one from it on. -/
theorem find_splice (before after : SortedMap κ α) (key other : κ) :
    (splice before after key).find other =
      if other < key then after.find other else before.find other := by
  have hafter := lookup_filter (fun k => decide (k < key)) after.entries other
  have hbefore := lookup_filter (fun k => decide (key ≤ k)) before.entries other
  simp only [find, splice, lookup_append, hafter, hbefore, decide_eq_true_eq]
  by_cases hlt : other < key
  · rw [if_pos hlt, if_neg (not_le.mpr hlt), if_pos hlt, Option.or_none]
  · rw [if_neg hlt, if_pos (not_lt.mp hlt), if_neg hlt, Option.none_or]

end SortedMap

end LatentMesh.Lib
