import Mathlib.Algebra.Order.BigOperators.Group.List
import Mathlib.Algebra.Order.Field.Rat
import Mathlib.Data.List.Induction
import Mathlib.Order.Compare
import LatentMesh.Lib.Ranking
import LatentMesh.Memory.Store

/-!
# What the store keeps, and what it recalls

The insertion order lists the keys of the records (`InMemoryStore.InStep`), so that a recall ranks
every record once (`InMemoryStore.recall_ok`). A record moves down the continuum only, and over
exact numbers it never loses any of its reconstruction error (`memory_store_law`).
-/

namespace LatentMesh.Memory

open LatentMesh.Lib LatentMesh.Core

/-- Exact numbers. What the quantizers make of a latent is left open. -/
def Arithmetic.exact (reencode : List ℚ → Encoding → List ℚ) : Arithmetic ℚ ℚ where
  zero := 0
  add := (· + ·)
  sub := (· - ·)
  div := (· / ·)
  abs value := |value|
  sum := List.sum
  ofNat n := n
  reencode := reencode
  zero64 := 0
  add64 := (· + ·)
  div64 := (· / ·)
  lt64 left right := decide (left < right)
  ofNat64 n := n

/-- A lossy step adds a mean of absolute values. -/
theorem reencoded_error_le (reencode : List ℚ → Encoding → List ℚ) (record : TrajectoryRecord ℚ ℚ)
    (encoding : Encoding) (target : Fidelity) :
    record.reconstructionError ≤
      (reencoded (.exact reencode) record encoding target).reconstructionError := by
  show _ ≤ record.reconstructionError +
    (compressLatent (.exact reencode) record.latent encoding).meanAbsError
  refine le_add_of_nonneg_right ?_
  unfold compressLatent
  dsimp only
  split
  · exact le_refl 0
  · refine div_nonneg (List.sum_nonneg fun term hterm => ?_) (Nat.cast_nonneg _)
    obtain ⟨index, hindex, rfl⟩ := List.getElem_of_mem hterm
    rw [List.getElem_zipWith]
    exact abs_nonneg _

namespace InMemoryStore

variable {φ δ κ : Type} {ops : Arithmetic φ δ} {self next : InMemoryStore φ δ}
  {call : Call φ δ} {result : Except (MemoryError δ) Unit}

/-! ## The two containers -/

/-- The insertion order lists the keys of the records, each once. -/
structure InStep (store : InMemoryStore φ δ) : Prop where
  nodup : store.insertionOrder.Nodup
  mem_iff : ∀ id, id ∈ store.insertionOrder ↔ (store.get id).isSome = true
  id_eq : ∀ id record, store.get id = some record → record.id = id

/-- A record is replaced by one with its id. -/
theorem InStep.replace (h : self.InStep) {id : String} {old record : TrajectoryRecord φ δ}
    (hget : self.get id = some old) (hid : record.id = old.id) (rules : List SymbolicRule) :
    InStep { self with records := self.records.insert id record, rules := rules } where
  nodup := h.nodup
  mem_iff other := by
    show other ∈ self.insertionOrder ↔ ((self.records.insert id record).find other).isSome = true
    rw [h.mem_iff, SortedMap.find_insert]
    split
    · rename_i heq
      subst heq
      rw [hget]
      exact Iff.rfl
    · exact Iff.rfl
  id_eq other found hfound := by
    rcases SortedMap.find_insert_eq_some_iff.mp hfound with ⟨rfl, rfl⟩ | ⟨-, hold⟩
    · exact hid.trans (h.id_eq id old hget)
    · exact h.id_eq other found hold

/-- A record is stored under a new id. -/
theorem InStep.insert_new (h : self.InStep) (record : TrajectoryRecord φ δ)
    (hfresh : self.get record.id = none) :
    InStep { self with
      insertionOrder := self.insertionOrder ++ [record.id]
      records := self.records.insert record.id record } where
  nodup := by
    have hnew : record.id ∉ self.insertionOrder := by
      rw [h.mem_iff, hfresh]
      exact fun h => nomatch h
    exact List.nodup_append.mpr ⟨h.nodup, List.nodup_singleton _, fun id hid other hother heq =>
      hnew (List.mem_singleton.mp hother ▸ heq ▸ hid)⟩
  mem_iff other := by
    show other ∈ self.insertionOrder ++ [record.id] ↔
      ((self.records.insert record.id record).find other).isSome = true
    rw [List.mem_append, List.mem_singleton, h.mem_iff, SortedMap.find_insert]
    by_cases heq : record.id = other
    · rw [if_pos heq]
      exact iff_of_true (Or.inr heq.symm) rfl
    · rw [if_neg heq]
      exact or_iff_left fun h => heq h.symm
  id_eq other found hfound := by
    rcases SortedMap.find_insert_eq_some_iff.mp hfound with ⟨rfl, rfl⟩ | ⟨-, hold⟩
    · rfl
    · exact h.id_eq other found hold

/-- Every call keeps the two containers in step. -/
theorem Change.in_step (h : Change ops self call (next, result)) (hstep : self.InStep) :
    next.InStep := by
  cases h with
  | refused => exact hstep
  | remembered => exact ⟨hstep.nodup, hstep.mem_iff, hstep.id_eq⟩
  | stored _ record hfresh => exact hstep.insert_new record hfresh
  | lowered id target record hget _ =>
      exact hstep.replace hget
        (show (reencoded ops record (encodingOf target) target).id = record.id from rfl) self.rules
  | folded prototypeId family memberIds sums hfresh =>
      exact hstep.insert_new (prototypeOf ops prototypeId family memberIds.length sums) hfresh
  | promoted prototypeId uses ruleText proto hget =>
      exact hstep.replace hget
        (show ({ proto with fidelity := .rule } : TrajectoryRecord φ δ).id = proto.id from rfl) _

/-- In every run the two containers are in step. -/
theorem run_in_step (ops : Arithmetic φ δ) (config : MemoryConfig δ) (calls : List (Call φ δ)) :
    (run ops config calls).InStep := by
  induction calls using List.reverseRecOn with
  | nil => exact ⟨List.nodup_nil, fun id => iff_of_false List.not_mem_nil Bool.false_ne_true,
      fun _ _ hget => nomatch hget⟩
  | append_singleton calls call ih =>
      obtain ⟨_, hchange, -⟩ := run_change ops config calls call
      exact hchange.in_step ih

/-! ## Records move down -/

/-- A record is still stored after a call, no less lossy and with no less error. -/
theorem Change.lossy [Preorder φ] (h : Change ops self call (next, result))
    (hlossy : ∀ record encoding target, record.reconstructionError ≤
      (reencoded ops record encoding target).reconstructionError)
    {id : String} {record : TrajectoryRecord φ δ} (hget : self.get id = some record) :
    ∃ later, next.get id = some later ∧ record.fidelity ≤ later.fidelity ∧
      record.reconstructionError ≤ later.reconstructionError := by
  -- the record of another id is left alone
  have hkept : ∀ (key : String) (value : TrajectoryRecord φ δ), key ≠ id →
      ∃ later, (self.records.insert key value).find id = some later ∧
        record.fidelity ≤ later.fidelity ∧
          record.reconstructionError ≤ later.reconstructionError := by
    intro key value hne
    exact ⟨record, (SortedMap.find_insert ..).trans ((if_neg hne).trans hget), le_refl _, le_refl _⟩
  have hnew : ∀ key, self.get key = none → key ≠ id := by
    rintro key hfresh rfl
    rw [hget] at hfresh
    cases hfresh
  cases h with
  | refused => exact ⟨record, hget, le_refl _, le_refl _⟩
  | remembered => exact ⟨record, hget, le_refl _, le_refl _⟩
  | stored _ new hfresh => exact hkept _ new (hnew _ hfresh)
  | folded prototypeId _ _ _ hfresh => exact hkept prototypeId _ (hnew _ hfresh)
  | lowered key target old hold hlt =>
      by_cases hkey : key = id
      · subst hkey
        rw [hget] at hold
        cases hold
        exact ⟨_, SortedMap.find_insert_self _ _ _, le_of_lt hlt, hlossy record _ target⟩
      · exact hkept key _ hkey
  | promoted key _ _ old hold =>
      by_cases hkey : key = id
      · subst hkey
        rw [hget] at hold
        cases hold
        exact ⟨_, SortedMap.find_insert_self _ _ _, record.fidelity.le_rule, le_refl _⟩
      · exact hkept key _ hkey

/-- What is stored stays stored, no less lossy and with no less error. -/
theorem run_lossy [Preorder φ] (config : MemoryConfig δ) (before after : List (Call φ δ))
    (hlossy : ∀ record encoding target, record.reconstructionError ≤
      (reencoded ops record encoding target).reconstructionError)
    {id : String} {record : TrajectoryRecord φ δ}
    (hget : (run ops config before).get id = some record) :
    ∃ later, (run ops config (before ++ after)).get id = some later ∧
      record.fidelity ≤ later.fidelity ∧
        record.reconstructionError ≤ later.reconstructionError := by
  induction after using List.reverseRecOn with
  | nil =>
      rw [List.append_nil]
      exact ⟨record, hget, le_refl _, le_refl _⟩
  | append_singleton after call ih =>
      obtain ⟨middle, hmiddle, hfidelity, herror⟩ := ih
      rw [← List.append_assoc]
      obtain ⟨_, hchange, -⟩ := run_change ops config (before ++ after) call
      obtain ⟨later, hlater, hfidelity', herror'⟩ := hchange.lossy hlossy hmiddle
      exact ⟨later, hlater, hfidelity.trans hfidelity', herror.trans herror'⟩

/-! ## Recall -/

/-- A hit comes above another: it is more similar, or as similar and stored before. -/
def Above [LT κ] (store : InMemoryStore φ δ) (first second : Recalled φ δ κ) : Prop :=
  second.similarity < first.similarity ∨ first.similarity = second.similarity ∧
    store.insertionOrder.idxOf first.record.id < store.insertionOrder.idxOf second.record.id

/-- The hits are the first `k` records of the ranking, or all of them. -/
structure IsRecall [LT κ] (store : InMemoryStore φ δ) (similarity : List φ → List φ → κ)
    (query : List φ) (k : Nat) (hits : List (Recalled φ δ κ)) : Prop where
  length_eq : hits.length = min k store.len
  stored : ∀ hit ∈ hits, store.get hit.record.id = some hit.record ∧
    hit.similarity = similarity query hit.record.latent
  ranked : hits.Pairwise store.Above
  complete : ∀ id record, store.get id = some record → id ∉ hits.map (·.record.id) →
    ∀ hit ∈ hits, store.Above hit ⟨record, similarity query record.latent⟩

/-- The places of distinct ids are in order. -/
theorem idx_of_pairwise {ids : List String} (h : ids.Nodup) :
    ids.Pairwise fun first second => ids.idxOf first < ids.idxOf second := by
  refine List.pairwise_iff_getElem.mpr fun index index' hindex hindex' hlt => ?_
  rw [h.idxOf_getElem, h.idxOf_getElem]
  exact hlt

/-- The records in insertion order. -/
theorem InStep.found_ids (h : self.InStep) :
    (self.insertionOrder.filterMap self.records.find).map (·.id) = self.insertionOrder := by
  have hall : ∀ ids : List String, (∀ id ∈ ids, (self.get id).isSome = true) →
      (ids.filterMap self.records.find).map (·.id) = ids := by
    intro ids hids
    induction ids with
    | nil => rfl
    | cons id ids ih =>
        obtain ⟨hid, hrest⟩ := List.forall_mem_cons.mp hids
        obtain ⟨record, hrecord⟩ := Option.isSome_iff_exists.mp hid
        rw [get] at hrecord
        rw [List.filterMap_cons_some hrecord, List.map_cons, ih hrest, h.id_eq id record hrecord]
  exact hall _ fun id hid => (h.mem_iff id).mp hid

variable [LinearOrder κ] (similarity : List φ → List φ → κ)

/-- A recall ranks every record of the store once. -/
theorem recall_ok (h : self.InStep) {query : List φ}
    (hquery : query.length = self.config.dimensions) (k : Nat) :
    ∃ hits, self.recall similarity (fun left right => some (compare left right)) query k =
      .ok hits ∧ self.IsRecall similarity query k hits := by
  unfold InMemoryStore.recall
  rw [if_neg (not_not.mpr hquery)]
  dsimp only
  generalize hfound : (self.insertionOrder.filterMap self.records.find).map (fun r =>
    (⟨r, similarity query r.latent⟩ : Recalled φ δ κ)) = found
  generalize hle : (fun a b : Recalled φ δ κ =>
    (some (compare b.similarity a.similarity)).getD .eq != .gt) = le
  have hle_iff : ∀ a b, le a b = true ↔ b.similarity ≤ a.similarity := by
    intro a b
    rw [← hle, bne_iff_ne]
    exact compare_le_iff_le
  have hids : found.map (fun hit => hit.record.id) = self.insertionOrder := by
    rw [← hfound, List.map_map]
    exact h.found_ids
  -- the records come in insertion order, and a stable sort keeps it among equals
  have horder : found.Pairwise fun first second =>
      self.insertionOrder.idxOf first.record.id < self.insertionOrder.idxOf second.record.id := by
    have hpairwise := idx_of_pairwise h.nodup
    rw [← hids, List.pairwise_map, hids] at hpairwise
    exact hpairwise
  have hsorted := merge_sort_stable
    (fun a b c hab hbc => (hle_iff a c).mpr (((hle_iff b c).mp hbc).trans ((hle_iff a b).mp hab)))
    (fun a b => by
      rw [Bool.or_eq_true, hle_iff, hle_iff]
      exact le_total _ _) horder
  have hranked : (found.mergeSort le).Pairwise self.Above := by
    refine hsorted.imp fun {first second} habove => ?_
    rcases lt_or_eq_of_le ((hle_iff _ _).mp habove.1) with hlt | heq
    · exact Or.inl hlt
    · exact Or.inr ⟨heq.symm, habove.2 ((hle_iff _ _).mpr heq.symm.le)⟩
  have hmem : ∀ hit, hit ∈ found.mergeSort le ↔ self.get hit.record.id = some hit.record ∧
      hit.similarity = similarity query hit.record.latent := by
    intro hit
    rw [List.mem_mergeSort, ← hfound, List.mem_map]
    constructor
    · rintro ⟨record, hrecord, rfl⟩
      obtain ⟨id, -, hget⟩ := List.mem_filterMap.mp hrecord
      obtain rfl := h.id_eq id record hget
      exact ⟨hget, rfl⟩
    · rintro ⟨hget, hsimilarity⟩
      refine ⟨hit.record, List.mem_filterMap.mpr ⟨hit.record.id, ?_, hget⟩, ?_⟩
      · rw [h.mem_iff, hget]
        rfl
      · rw [← hsimilarity]
  have hlength : (found.mergeSort le).length = self.len := by
    rw [List.length_mergeSort, ← List.length_map (fun hit => hit.record.id), hids]
    exact (SortedMap.size_eq_length h.nodup h.mem_iff).symm
  refine ⟨_, rfl, ?_, ?_, hranked.sublist (List.take_sublist k _), ?_⟩
  · rw [List.length_take, hlength]
  · exact fun hit hhit => (hmem hit).mp (List.mem_of_mem_take hhit)
  · intro id record hget hleft hit hhit
    obtain rfl := h.id_eq id record hget
    -- a record that is left out is ranked behind the first `k`
    have hrest : (⟨record, similarity query record.latent⟩ : Recalled φ δ κ) ∈
        (found.mergeSort le).drop k := by
      have hall := (hmem ⟨record, similarity query record.latent⟩).mpr ⟨hget, rfl⟩
      rw [← List.take_append_drop k (found.mergeSort le), List.mem_append] at hall
      exact hall.resolve_left fun htaken => hleft (List.mem_map.mpr ⟨_, htaken, rfl⟩)
    rw [← List.take_append_drop k (found.mergeSort le)] at hranked
    exact (List.pairwise_append.mp hranked).2.2 hit hhit _ hrest

end InMemoryStore

/-- After any calls, over exact numbers: the insertion order lists the keys of the records, each
once; no record has moved up or lost any error; a call that fails changes nothing; and a recall
returns the first records of the ranking. -/
theorem memory_store_law {κ : Type} [LinearOrder κ] (reencode : List ℚ → Encoding → List ℚ)
    (similarity : List ℚ → List ℚ → κ) (config : MemoryConfig ℚ) (calls : List (Call ℚ ℚ)) :
    (InMemoryStore.run (.exact reencode) config calls).InStep ∧
    (∀ before after, calls = before ++ after → ∀ id record,
      (InMemoryStore.run (.exact reencode) config before).get id = some record →
      ∃ later, (InMemoryStore.run (.exact reencode) config calls).get id = some later ∧
        record.fidelity ≤ later.fidelity ∧
          record.reconstructionError ≤ later.reconstructionError) ∧
    (∀ call error,
      ((InMemoryStore.run (.exact reencode) config calls).apply (.exact reencode) call).2 =
        .error error →
      ((InMemoryStore.run (.exact reencode) config calls).apply (.exact reencode) call).1 =
        InMemoryStore.run (.exact reencode) config calls) ∧
    ∀ query k, query.length = config.dimensions →
      ∃ hits, (InMemoryStore.run (.exact reencode) config calls).recall similarity
          (fun left right => some (compare left right)) query k = .ok hits ∧
        (InMemoryStore.run (.exact reencode) config calls).IsRecall similarity query k hits := by
  have hstep := InMemoryStore.run_in_step (.exact reencode) config calls
  refine ⟨hstep, ?_, ?_, ?_⟩
  · rintro before after rfl id record hget
    exact InMemoryStore.run_lossy config before after (reencoded_error_le reencode) hget
  · intro call error herror
    exact InMemoryStore.apply_error herror
  · intro query k hquery
    refine InMemoryStore.recall_ok similarity hstep ?_ k
    rw [InMemoryStore.run_config]
    exact hquery

end LatentMesh.Memory
