import LatentMesh.AirCore.SemanticCodec

/-!
# Replaying a semantic delta

`SemanticDelta.apply` replays the differences between two states in field order through a state of
at most 64 fields. `apply_between` says what it returns for every delta that `between` builds: the
new state, or a limit error when an added field meets a full intermediate state (`Room`).
-/

namespace LatentMesh.AirCore

open LatentMesh.Lib

namespace CriticalState

/-- States with equal look-ups are equal. -/
theorem ext_get {left right : CriticalState} (h : ∀ key, left.get key = right.get key) :
    left = right := by
  obtain ⟨first, hfirst, hfirstValid⟩ := left
  obtain ⟨second, hsecond, hsecondValid⟩ := right
  have heq : first = second := SortedMap.ext_find h
  subst heq
  rfl

/-- What is found after a removal. -/
theorem get_remove (self : CriticalState) (fieldId other : UInt16) :
    (self.remove fieldId).get other = if other ≠ fieldId then self.get other else none :=
  SortedMap.find_erase self.fields fieldId other

/-- The values of a state are valid. -/
theorem value_valid {self : CriticalState} {fieldId : UInt16} {value : SymbolValue}
    (h : self.get fieldId = some value) : value.validate = .ok () :=
  self.valid _ ((self.fields.mem_entries_iff fieldId value).mpr h)

/-- `set` on a state that has the field or room for it. -/
theorem exists_set {self : CriticalState} {fieldId : UInt16} {value : SymbolValue}
    (hvalue : value.validate = .ok ())
    (hroom : self.get fieldId = none → self.fields.size < maxCriticalFields) :
    ∃ next, self.set fieldId value = .ok next ∧
      ∀ other, next.get other = if fieldId = other then some value else self.get other := by
  have hfull : ¬ (self.get fieldId = none ∧ self.fields.size = maxCriticalFields) :=
    fun ⟨hnone, hsize⟩ => Nat.ne_of_lt (hroom hnone) hsize
  refine ⟨⟨self.fields.insert fieldId value, insert_bounded value hfull, insert_valid hvalue⟩,
    ?_, fun other => SortedMap.find_insert ..⟩
  unfold set
  split
  · rename_i herror
    rw [hvalue] at herror
    cases herror
  · rw [dif_neg hfull]

/-- `set` of a new field on a full state. -/
theorem set_full {self : CriticalState} {fieldId : UInt16} {value : SymbolValue}
    (hvalue : value.validate = .ok ()) (hnone : self.get fieldId = none)
    (hsize : maxCriticalFields ≤ self.fields.size) :
    self.set fieldId value = .error .limitExceeded := by
  unfold set
  split
  · rename_i herror
    rw [hvalue] at herror
    cases herror
  · rw [dif_pos ⟨hnone, Nat.le_antisymm self.bounded hsize⟩]

end CriticalState

namespace SemanticDelta

/-! ## The updates of a difference -/

/-- An update takes its field from its value in `before` to its value in `after`. -/
def Changes (before after : CriticalState) : SymbolUpdate → Prop
  | .set fieldId value => after.get fieldId = some value ∧ before.get fieldId ≠ some value
  | .delete fieldId => after.get fieldId = none ∧ before.get fieldId ≠ none

/-- `between` pushes exactly the changes. -/
theorem mem_updates_iff {before after : CriticalState} {update : SymbolUpdate} :
    update ∈ updatesOfBefore before after ++ updatesOfAfter before after ↔
      Changes before after update := by
  simp only [updatesOfBefore, updatesOfAfter, List.mem_append, List.mem_filterMap]
  constructor
  · rintro (⟨⟨key, old⟩, hentry, hpush⟩ | ⟨⟨key, value⟩, hentry, hpush⟩)
    · have hbefore : before.get key = some old := (before.fields.mem_entries_iff key old).mp hentry
      cases hafter : after.get key with
      | none =>
          simp only [hafter] at hpush
          cases hpush
          exact ⟨hafter, by simp [hbefore]⟩
      | some value =>
          simp only [hafter] at hpush
          split at hpush
          · rename_i hne
            cases hpush
            exact ⟨hafter, fun heq => hne (Option.some.inj (heq.symm.trans hbefore))⟩
          · cases hpush
    · have hafter : after.get key = some value := (after.fields.mem_entries_iff key value).mp hentry
      dsimp only at hpush
      split at hpush
      · rename_i hnone
        cases hpush
        exact ⟨hafter, by simp [hnone]⟩
      · cases hpush
  · intro hchange
    cases update with
    | delete key =>
        obtain ⟨old, hbefore⟩ := Option.ne_none_iff_exists'.mp hchange.2
        refine Or.inl ⟨(key, old), (before.fields.mem_entries_iff key old).mpr hbefore, ?_⟩
        simp only [hchange.1]
    | set key value =>
        cases hbefore : before.get key with
        | none =>
            refine Or.inr ⟨(key, value), (after.fields.mem_entries_iff key value).mpr hchange.1, ?_⟩
            simp only [hbefore, if_true]
        | some old =>
            refine Or.inl ⟨(key, old), (before.fields.mem_entries_iff key old).mpr hbefore, ?_⟩
            have hne : value ≠ old := fun heq => hchange.2 (by rw [hbefore, heq])
            simp only [hchange.1, if_pos hne]

/-- A field without an update is the same before and after. -/
theorem get_eq_of_unchanged {before after : CriticalState} {updates : List SymbolUpdate}
    (hupdates : ∀ update, update ∈ updates ↔ Changes before after update) {key : UInt16}
    (h : key ∉ updates.map SymbolUpdate.fieldId) : before.get key = after.get key := by
  by_contra hne
  cases hafter : after.get key with
  | none =>
      rw [hafter] at hne
      exact h (List.mem_map.mpr ⟨.delete key, (hupdates _).mpr ⟨hafter, hne⟩, rfl⟩)
  | some value =>
      rw [hafter] at hne
      exact h (List.mem_map.mpr ⟨.set key value, (hupdates _).mpr ⟨hafter, hne⟩, rfl⟩)

/-! ## Room for the added fields -/

/-- When `fieldId` is reached, the fields below it are those of `after` and the rest are those of
`before`: this state is not full. -/
def RoomFor (before after : CriticalState) (fieldId : UInt16) : Prop :=
  (after.fields.entries.countP fun entry => entry.1 < fieldId) +
    (before.fields.entries.countP fun entry => fieldId ≤ entry.1) < maxCriticalFields

/-- There is room for every field that `after` adds to `before`. -/
def Room (before after : CriticalState) : Prop :=
  ∀ entry ∈ after.fields.entries, before.get entry.1 = none → RoomFor before after entry.1

instance (before after : CriticalState) (fieldId : UInt16) :
    Decidable (RoomFor before after fieldId) :=
  inferInstanceAs (Decidable (_ < _))

instance (before after : CriticalState) : Decidable (Room before after) :=
  inferInstanceAs (Decidable (∀ entry ∈ after.fields.entries, _ → _))

/-- There is room for a field when the state on the way to it is not full. -/
theorem room_for_iff {before after : CriticalState} {fieldId : UInt16} :
    RoomFor before after fieldId ↔
      (SortedMap.splice before.fields after.fields fieldId).size < maxCriticalFields := by
  rw [RoomFor, SortedMap.size, SortedMap.splice, List.length_append, List.countP_eq_length_filter,
    List.countP_eq_length_filter]

/-! ## The replay -/

/-- A state in the middle of a replay: `done` is applied and `rest` is not. -/
structure Replayed (before after : CriticalState) (done rest : List SymbolUpdate)
    (state : CriticalState) : Prop where
  changes : ∀ update, update ∈ done ++ rest ↔ Changes before after update
  sorted : ((done ++ rest).map SymbolUpdate.fieldId).Pairwise (· < ·)
  get : ∀ key, state.get key =
    if key ∈ rest.map SymbolUpdate.fieldId then before.get key else after.get key

namespace Replayed

variable {before after state next : CriticalState} {done rest : List SymbolUpdate}
  {update : SymbolUpdate}

/-- The updates are in the order of their fields. -/
theorem fieldId_lt (h : Replayed before after done (update :: rest) state) :
    (∀ key ∈ done.map SymbolUpdate.fieldId, key < update.fieldId) ∧
      ∀ key ∈ rest.map SymbolUpdate.fieldId, update.fieldId < key := by
  have hsorted := h.sorted
  rw [List.map_append, List.map_cons, List.pairwise_append, List.pairwise_cons] at hsorted
  exact ⟨fun key hkey => hsorted.2.2 key hkey _ (List.mem_cons_self ..), hsorted.2.1.1⟩

/-- The field of the next update still has its old value. -/
theorem get_next (h : Replayed before after done (update :: rest) state) :
    state.get update.fieldId = before.get update.fieldId := by
  rw [h.get, if_pos (by simp)]

/-- The state splices `after` and `before` at the next field. -/
theorem fields_eq (h : Replayed before after done (update :: rest) state) :
    state.fields = SortedMap.splice before.fields after.fields update.fieldId := by
  obtain ⟨hdone, hrest⟩ := h.fieldId_lt
  refine SortedMap.ext_find fun key => ?_
  rw [SortedMap.find_splice]
  refine (h.get key).trans ?_
  by_cases hmem : key ∈ (update :: rest).map SymbolUpdate.fieldId
  · have hle : update.fieldId ≤ key := by
      rcases List.mem_cons.mp hmem with rfl | hmem
      · exact le_refl _
      · exact le_of_lt (hrest key hmem)
    rw [if_pos hmem, if_neg (not_lt.mpr hle)]
    rfl
  · rw [if_neg hmem]
    by_cases hlt : key < update.fieldId
    · rw [if_pos hlt]
      rfl
    · rw [if_neg hlt]
      refine (get_eq_of_unchanged h.changes fun hall => ?_).symm
      rw [List.map_append, List.mem_append] at hall
      rcases hall with hold | hnew
      · exact hlt (hdone key hold)
      · exact hmem hnew

/-- One update takes the replay one step further. -/
theorem step (h : Replayed before after done (update :: rest) state)
    (hnext : ∀ key, next.get key =
      if key = update.fieldId then after.get key else state.get key) :
    Replayed before after (done ++ [update]) rest next where
  changes other := by simpa using h.changes other
  sorted := by simpa using h.sorted
  get key := by
    rw [hnext]
    by_cases hkey : key = update.fieldId
    · have hnot : key ∉ rest.map SymbolUpdate.fieldId :=
        fun hmem => lt_irrefl key (by simpa [hkey] using h.fieldId_lt.2 key hmem)
      rw [if_pos hkey, if_neg hnot]
    · rw [if_neg hkey, h.get, List.map_cons]
      simp only [List.mem_cons, hkey, false_or]

end Replayed

/-- Some update adds a field that finds no room. -/
def Blocked (before after : CriticalState) (updates : List SymbolUpdate) : Prop :=
  ∃ update ∈ updates, after.get update.fieldId ≠ none ∧ before.get update.fieldId = none ∧
    ¬ RoomFor before after update.fieldId

/-- The first update is blocked, or a later one is. -/
theorem blocked_cons_iff {before after : CriticalState} {update : SymbolUpdate}
    {rest : List SymbolUpdate} :
    Blocked before after (update :: rest) ↔
      (after.get update.fieldId ≠ none ∧ before.get update.fieldId = none ∧
        ¬ RoomFor before after update.fieldId) ∨ Blocked before after rest := by
  simp [Blocked]

/-- A replay ends in `after` unless an update is blocked. -/
theorem replay_cases {before after state : CriticalState} {done rest : List SymbolUpdate}
    (h : Replayed before after done rest state) :
    (¬ Blocked before after rest ∧ replay state rest = .ok after) ∨
      (Blocked before after rest ∧ replay state rest = .error .limitExceeded) := by
  induction rest generalizing done state with
  | nil =>
      have hstate : state = after := CriticalState.ext_get fun key => by simpa using h.get key
      exact Or.inl ⟨by simp [Blocked], by rw [replay, hstate]⟩
  | cons update rest ih =>
      have hchange : Changes before after update := (h.changes update).mp (by simp)
      rw [blocked_cons_iff]
      cases update with
      | delete key =>
          have hskip : ¬ (after.get key ≠ none ∧ before.get key = none ∧
              ¬ RoomFor before after key) := fun hadded => hadded.1 hchange.1
          have hremove : ∀ other, (state.remove key).get other =
              if other = (SymbolUpdate.delete key).fieldId then after.get other
              else state.get other := fun other => by
            rw [CriticalState.get_remove]
            by_cases hother : other = key
            · simp [hother, SymbolUpdate.fieldId, hchange.1]
            · simp [hother, SymbolUpdate.fieldId]
          simpa only [SymbolUpdate.fieldId, hskip, false_or, replay] using ih (h.step hremove)
      | set key value =>
          have hvalid : value.validate = .ok () := CriticalState.value_valid hchange.1
          have hget : state.get key = before.get key := h.get_next
          have hroom : RoomFor before after key ↔ state.fields.size < maxCriticalFields := by
            rw [room_for_iff, h.fields_eq]
            rfl
          by_cases hfull : before.get key = none ∧ ¬ RoomFor before after key
          · have hset := CriticalState.set_full hvalid (hget.trans hfull.1)
              (not_lt.mp (hroom.not.mp hfull.2))
            refine Or.inr ⟨Or.inl ⟨?_, hfull⟩, ?_⟩
            · rw [SymbolUpdate.fieldId, hchange.1]
              exact Option.some_ne_none value
            · rw [replay, hset]
              rfl
          · have hskip : ¬ (after.get key ≠ none ∧ before.get key = none ∧
                ¬ RoomFor before after key) := fun hadded => hfull hadded.2
            obtain ⟨next, hset, hnext⟩ := CriticalState.exists_set hvalid fun hnone =>
              hroom.mp (by_contra fun hno => hfull ⟨hget.symm.trans hnone, hno⟩)
            have hupdate : ∀ other, next.get other =
                if other = (SymbolUpdate.set key value).fieldId then after.get other
                else state.get other := fun other => by
              rw [hnext]
              by_cases hother : other = key
              · simp [hother, SymbolUpdate.fieldId, hchange.1]
              · simp [hother, SymbolUpdate.fieldId, Ne.symm hother]
            simpa only [SymbolUpdate.fieldId, hskip, false_or, replay, hset, Except.bind]
              using ih (h.step hupdate)

/-- The updates of a difference are blocked exactly when an added field finds no room. -/
theorem blocked_iff {before after : CriticalState} {updates : List SymbolUpdate}
    (hupdates : ∀ update, update ∈ updates ↔ Changes before after update) :
    Blocked before after updates ↔ ¬ Room before after := by
  constructor
  · rintro ⟨update, -, hafter, hbefore, hfull⟩ hroom
    obtain ⟨value, hvalue⟩ := Option.ne_none_iff_exists'.mp hafter
    exact hfull (hroom _ ((after.fields.mem_entries_iff _ value).mpr hvalue) hbefore)
  · intro hnot
    simp only [Room, not_forall] at hnot
    obtain ⟨⟨key, value⟩, hentry, hbefore, hfull⟩ := hnot
    have hafter : after.get key = some value := (after.fields.mem_entries_iff key value).mp hentry
    refine ⟨.set key value, (hupdates _).mpr ⟨hafter, ?_⟩, ?_, hbefore, hfull⟩
    · simp [hbefore]
    · simp [SymbolUpdate.fieldId, hafter]

/-! ## The delta law -/

/-- What `between` returns. -/
theorem between_eq_ok {sha256 : List UInt8 → Vector UInt8 32} {sourceId epoch messageId : UInt32}
    {before after : CriticalState} {residuals : List Residual} {delta : SemanticDelta}
    (h : between sha256 sourceId epoch messageId before after residuals = .ok delta) :
    delta.Valid ∧ delta.baseHash = before.criticalHash sha256 ∧
      delta.resultHash = after.criticalHash sha256 ∧
      delta.updates =
        sortUpdates (updatesOfBefore before after ++ updatesOfAfter before after) := by
  obtain ⟨u, hvalid, hdelta⟩ := Lib.bind_eq_ok_iff.mp h
  cases hdelta
  exact ⟨validate_eq_ok_iff.mp hvalid, rfl, rfl, rfl⟩

/-- `apply` on the base state of a delta that carries the changes between two states. -/
theorem apply_changes {sha256 : List UInt8 → Vector UInt8 32} {before after : CriticalState}
    {delta : SemanticDelta} (hvalid : delta.Valid)
    (hbase : delta.baseHash = before.criticalHash sha256)
    (hresult : delta.resultHash = after.criticalHash sha256)
    (hupdates : ∀ update, update ∈ delta.updates ↔ Changes before after update)
    (hsorted : (delta.updates.map SymbolUpdate.fieldId).Pairwise (· < ·)) :
    delta.apply sha256 before =
      if Room before after then .ok after else .error .limitExceeded := by
  have hstart : Replayed before after [] delta.updates before :=
    ⟨hupdates, hsorted, fun key => by
      split
      · rfl
      · rename_i hmem
        exact get_eq_of_unchanged hupdates hmem⟩
  rw [apply, validate_eq_ok_iff (u := ()).mpr hvalid]
  simp only [Except.bind, hbase, hresult, ne_eq, not_true, if_false]
  rcases replay_cases hstart with ⟨hfree, hreplay⟩ | ⟨hblocked, hreplay⟩
  · rw [blocked_iff hupdates, not_not] at hfree
    simp only [hreplay, not_true, if_false, if_pos hfree]
  · rw [blocked_iff hupdates] at hblocked
    simp only [hreplay, if_neg hblocked]

/-- `apply` on the base state of a delta that `between` returns. -/
theorem apply_between {sha256 : List UInt8 → Vector UInt8 32} {sourceId epoch messageId : UInt32}
    {before after : CriticalState} {residuals : List Residual} {delta : SemanticDelta}
    (h : between sha256 sourceId epoch messageId before after residuals = .ok delta) :
    delta.apply sha256 before =
      if Room before after then .ok after else .error .limitExceeded := by
  obtain ⟨hvalid, hbase, hresult, hupdates⟩ := between_eq_ok h
  refine apply_changes hvalid hbase hresult (fun update => ?_) ?_
  · rw [hupdates, mem_sort_updates, mem_updates_iff]
  · rw [hupdates]
    refine sort_by_key_strict SymbolUpdate.fieldId ?_
    have hperm := (List.perm_insertionSort (fun left right => left.fieldId ≤ right.fieldId)
      (updatesOfBefore before after ++ updatesOfAfter before after)).map SymbolUpdate.fieldId
    have hfields := hvalid.fields
    rw [hupdates] at hfields
    exact hperm.nodup_iff.mp hfields

/-- A delta applies like its canonical form. -/
theorem apply_canonical {sha256 : List UInt8 → Vector UInt8 32} {self : SemanticDelta}
    {base : CriticalState} (hvalid : self.Valid)
    (hsorted : sortUpdates self.updates = self.updates) :
    self.canonical.apply sha256 base = self.apply sha256 base := by
  rw [apply, apply, validate_eq_ok_iff (u := ()).mpr hvalid,
    validate_eq_ok_iff (u := ()).mpr hvalid.canonical, canonical, hsorted]

/-- The delta between two states, and the one read back from its bytes, take the first state to the
second exactly when there is room for every added field. -/
theorem delta_law_iff {sha256 : List UInt8 → Vector UInt8 32} {sourceId epoch messageId : UInt32}
    {before after : CriticalState} {residuals : List Residual} {delta : SemanticDelta}
    (h : between sha256 sourceId epoch messageId before after residuals = .ok delta) :
    (delta.apply sha256 before = .ok after ∧
      ∃ bytes decoded, delta.encode = .ok bytes ∧ decode bytes = .ok decoded ∧
        decoded.apply sha256 before = .ok after) ↔ Room before after := by
  obtain ⟨hvalid, -, -, hupdates⟩ := between_eq_ok h
  have hsorted : sortUpdates delta.updates = delta.updates := by
    rw [hupdates, sortUpdates, sortUpdates]
    exact (List.pairwise_insertionSort _ _).insertionSort_eq
  have hencode : delta.encode = .ok delta.canonical.wire := encode_eq_ok_iff.mpr ⟨hvalid, rfl⟩
  rw [apply_between h]
  constructor
  · rintro ⟨happly, -⟩
    by_contra hroom
    rw [if_neg hroom] at happly
    cases happly
  · intro hroom
    rw [if_pos hroom]
    refine ⟨rfl, _, _, hencode, decode_encode hencode, ?_⟩
    rw [apply_canonical hvalid hsorted, apply_between h, if_pos hroom]

/-- A state with one flag. -/
def sampleBefore : CriticalState := ⟨⟨[(1, .bool true)], by decide⟩, by decide, by decide⟩

/-- The flag cleared, and a counter. -/
def sampleAfter : CriticalState :=
  ⟨⟨[(1, .bool false), (3, .u64 828)], by decide⟩, by decide, by decide⟩

/-- SHA-256 of the two states. -/
def sampleSha256 (input : List UInt8) : Vector UInt8 32 :=
  if input = sampleBefore.hashInput then
    #v[0x2a, 0x1f, 0x42, 0x37, 0x55, 0xc9, 0x42, 0x1b, 0xea, 0x5c, 0x45, 0x22, 0x6d, 0x77, 0xd2,
      0xf0, 0x70, 0xf5, 0xd5, 0xb0, 0x0a, 0x95, 0xdd, 0xef, 0x79, 0x17, 0x1b, 0xfc, 0xc3, 0x31,
      0xd1, 0x83]
  else
    #v[0x9f, 0xb9, 0xbb, 0xd8, 0x10, 0x15, 0x5c, 0x22, 0xc3, 0x8b, 0xe9, 0xd9, 0x26, 0x42, 0x07,
      0x3d, 0xbd, 0x48, 0x0b, 0xeb, 0x69, 0xaa, 0xa1, 0x8c, 0x53, 0xec, 0xa3, 0x79, 0x45, 0xdc,
      0x55, 0xcb]

/-- The theorem at two states. -/
theorem delta_law_iff_sample :
    ∃ delta, between sampleSha256 7 3 99 sampleBefore sampleAfter [] = .ok delta ∧
      delta.apply sampleSha256 sampleBefore = .ok sampleAfter ∧
      ∃ bytes decoded, delta.encode = .ok bytes ∧ decode bytes = .ok decoded ∧
        decoded.apply sampleSha256 sampleBefore = .ok sampleAfter := by
  obtain ⟨delta, hdelta⟩ :
      ∃ delta, between sampleSha256 7 3 99 sampleBefore sampleAfter [] = .ok delta := ⟨_, rfl⟩
  exact ⟨delta, hdelta, (delta_law_iff hdelta).mpr (by decide)⟩

/-! ## A full state -/

/-- The state with one true flag for each of the fields, set in turn. -/
def flagState (fields : List UInt16) : Result CriticalState :=
  fields.foldlM (fun state fieldId => state.set fieldId (.bool true)) .new

/-- The fields `first, first + 1, …` of a state. -/
def fieldRange (first count : Nat) : List UInt16 :=
  (List.range count).map fun offset => UInt16.ofNat (first + offset)

/-- A state of flags with the given entries. -/
theorem exists_flag_state {fields : List UInt16} {entries : List (UInt16 × SymbolValue)}
    (h : (flagState fields).toOption.map (·.fields.entries) = some entries) :
    ∃ state, flagState fields = .ok state ∧ state.fields.entries = entries := by
  cases hstate : flagState fields with
  | error error =>
      rw [hstate] at h
      cases h
  | ok state =>
      rw [hstate] at h
      exact ⟨state, rfl, Option.some.inj h⟩

/-- A delta that swaps field 1 for field 0 in a full state: the added field comes first, and the
replay stops there. -/
theorem delta_law_full_state :
    ∃ before after, flagState (fieldRange 1 64) = .ok before ∧
      flagState (0 :: fieldRange 2 63) = .ok after ∧
      ∀ sha256, ∃ delta, between sha256 0 0 0 before after [] = .ok delta ∧
        delta.apply sha256 before = .error .limitExceeded := by
  obtain ⟨before, hbefore, hold⟩ := @exists_flag_state (fieldRange 1 64)
    ((fieldRange 1 64).map fun fieldId => (fieldId, .bool true)) (by decide)
  obtain ⟨after, hafter, hnew⟩ := @exists_flag_state (0 :: fieldRange 2 63)
    ((0 :: fieldRange 2 63).map fun fieldId => (fieldId, .bool true)) (by decide)
  have hupdates : sortUpdates (updatesOfBefore before after ++ updatesOfAfter before after) =
      [.set 0 (.bool true), .delete 1] := by
    simp only [updatesOfBefore, updatesOfAfter, CriticalState.get, SortedMap.find, hold, hnew]
    decide
  have hroom : ¬ Room before after := by
    simp only [Room, RoomFor, CriticalState.get, SortedMap.find, hold, hnew]
    decide
  refine ⟨before, after, hbefore, hafter, fun sha256 => ?_⟩
  obtain ⟨delta, hdelta⟩ : ∃ delta, between sha256 0 0 0 before after [] = .ok delta := by
    rw [between, hupdates]
    exact ⟨_, rfl⟩
  exact ⟨delta, hdelta, by rw [apply_between hdelta, if_neg hroom]⟩

end SemanticDelta

end LatentMesh.AirCore
