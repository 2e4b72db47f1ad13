import Mathlib.Data.List.Induction
import LatentMesh.Memory.Store

/-!
# What a tier stands for

A prototype should have been made from two distinct records at least, and a rule should have been a
prototype with enough uses (`InMemoryStore.Earned`). The store does not check this at every way
down the continuum: a record can be compressed to a prototype or to a rule, a record that is no
prototype can be promoted to a rule, and the members of a prototype can be one record under
repeated ids. `InMemoryStore.run_earned_iff` says that these are the only ways.
-/

namespace LatentMesh.Memory

open LatentMesh.Lib LatentMesh.Core

/-- There are two different ids. -/
def TwoDistinct (ids : List String) : Prop :=
  ∃ first ∈ ids, ∃ second ∈ ids, first ≠ second

namespace InMemoryStore

variable {φ δ : Type}

section Statement

variable (ops : Arithmetic φ δ) (config : MemoryConfig δ)

/-- A record was made by a promotion of two distinct stored records at least. -/
def MadeFromMembers (calls : List (Call φ δ)) (id : String)
    (record : TrajectoryRecord φ δ) : Prop :=
  ∃ before family after,
    calls = before ++ .promoteToPrototype id family record.parents :: after ∧
    ((run ops config before).apply ops (.promoteToPrototype id family record.parents)).2 =
      .ok () ∧
    TwoDistinct record.parents ∧
    ∀ parent ∈ record.parents, ((run ops config before).get parent).isSome = true

/-- The record under an id was a prototype before. -/
def WasPrototype (calls : List (Call φ δ)) (id : String) : Prop :=
  ∃ before after record, calls = before ++ after ∧
    (run ops config before).get id = some record ∧ record.fidelity = .prototype

/-- After calls every record has the evidence of its tier. -/
structure Earned (calls : List (Call φ δ)) : Prop where
  prototype : ∀ id record, (run ops config calls).get id = some record →
    record.fidelity = .prototype → MadeFromMembers ops config calls id record
  rule : ∀ id record, (run ops config calls).get id = some record → record.fidelity = .rule →
    WasPrototype ops config calls id ∧
      ∃ rule ∈ (run ops config calls).rules,
        rule.promotedFrom = id ∧ config.rulePromotionUses ≤ rule.uses

end Statement

/-- A call takes no record to a tier without the evidence for it. -/
def Justified (self : InMemoryStore φ δ) : Call φ δ → Prop
  | .compressTo id target =>
      ∀ record, self.get id = some record → record.fidelity < target → target = .compressed
  | .promoteToPrototype prototypeId _ memberIds =>
      2 ≤ memberIds.length → (∀ member ∈ memberIds, (self.get member).isSome = true) →
        self.get prototypeId = none → TwoDistinct memberIds
  | .promoteToRule prototypeId uses _ =>
      ∀ record, self.get prototypeId = some record → self.config.rulePromotionUses ≤ uses →
        .prototype ≤ record.fidelity
  | _ => True

variable {ops : Arithmetic φ δ} {config : MemoryConfig δ} {self next : InMemoryStore φ δ}
  {call : Call φ δ} {calls : List (Call φ δ)} {id : String} {record : TrajectoryRecord φ δ}
  {result : Except (MemoryError δ) Unit}

/-! ## Records stay, and move down only -/

/-- Every record is still there, and not at a higher tier. -/
def Descends (self next : InMemoryStore φ δ) : Prop :=
  ∀ id record, self.get id = some record →
    ∃ later, next.get id = some later ∧ record.fidelity ≤ later.fidelity

/-- A store descends from itself. -/
theorem Descends.refl (self : InMemoryStore φ δ) : Descends self self :=
  fun _ record hget => ⟨record, hget, le_rfl⟩

/-- What descends from a descendant descends. -/
theorem Descends.trans {first second third : InMemoryStore φ δ} (h : Descends first second)
    (h' : Descends second third) : Descends first third := by
  intro id record hget
  obtain ⟨later, hlater, hle⟩ := h id record hget
  obtain ⟨last, hlast, hle'⟩ := h' id later hlater
  exact ⟨last, hlast, hle.trans hle'⟩

/-- A record may be replaced by one that is no less lossy. -/
theorem descends_of_insert {key : String} {value : TrajectoryRecord φ δ}
    (hrecords : next.records = self.records.insert key value)
    (hvalue : ∀ old, self.get key = some old → old.fidelity ≤ value.fidelity) :
    Descends self next := by
  intro id record hget
  by_cases hkey : key = id
  · subst hkey
    exact ⟨value, by rw [get, hrecords, SortedMap.find_insert_self], hvalue _ hget⟩
  · refine ⟨record, ?_, le_rfl⟩
    rw [get, hrecords, SortedMap.find_insert, if_neg hkey]
    exact hget

/-- No call makes a record less lossy. -/
theorem Change.descends (h : Change ops self call (next, result)) : Descends self next := by
  cases h with
  | refused => exact .refl _
  | remembered => exact .refl _
  | stored _ record hfresh => exact descends_of_insert rfl (by simp [hfresh])
  | lowered id target record hget hlt =>
      refine descends_of_insert rfl fun old hold => ?_
      rw [hget] at hold
      cases hold
      exact hlt.le
  | folded _ _ _ _ hfresh => exact descends_of_insert rfl (by simp [hfresh])
  | promoted => exact descends_of_insert rfl fun old _ => old.fidelity.le_rule

/-- No run makes a record less lossy. -/
theorem run_descends (before after : List (Call φ δ)) :
    Descends (run ops config before) (run ops config (before ++ after)) := by
  induction after using List.reverseRecOn with
  | nil =>
      rw [List.append_nil]
      exact .refl _
  | append_singleton after call ih =>
      rw [← List.append_assoc]
      obtain ⟨_, hchange, -⟩ := run_change ops config (before ++ after) call
      exact ih.trans hchange.descends

/-! ## Justified calls -/

/-- No call forgets a rule. -/
theorem Change.rules_subset (h : Change ops self call (next, result)) :
    self.rules ⊆ next.rules := by
  cases h with
  | promoted => exact List.subset_append_left _ _
  | _ => exact List.Subset.refl _

/-- Where a record comes from, after a justified call. -/
theorem Change.get_cases (h : Change ops self call (next, result))
    (hjustified : self.Justified call)
    (hdirect : ∀ record, call = .store record → record.fidelity ≤ .compressed)
    (hget : next.get id = some record) :
    self.get id = some record ∨ record.fidelity ≤ .compressed ∨
      (record.fidelity = .prototype ∧ result = .ok () ∧ TwoDistinct record.parents ∧
        (∀ parent ∈ record.parents, (self.get parent).isSome = true) ∧
        ∃ family, call = .promoteToPrototype id family record.parents) ∨
      (record.fidelity = .rule ∧
        (∃ proto, self.get id = some proto ∧ .prototype ≤ proto.fidelity) ∧
        ∃ rule ∈ next.rules,
          rule.promotedFrom = id ∧ self.config.rulePromotionUses ≤ rule.uses) := by
  cases h with
  | refused => exact Or.inl hget
  | remembered => exact Or.inl hget
  | stored _ new hfresh hcall =>
      rcases SortedMap.find_insert_eq_some_iff.mp hget with ⟨-, rfl⟩ | ⟨-, hold⟩
      · refine Or.inr (Or.inl ?_)
        rcases hcall with hstore | ⟨hcompressed, -⟩
        · exact hdirect _ hstore
        · exact hcompressed.le
      · exact Or.inl hold
  | lowered _ target old hold hlt =>
      rcases SortedMap.find_insert_eq_some_iff.mp hget with ⟨rfl, rfl⟩ | ⟨-, hother⟩
      · exact Or.inr (Or.inl (hjustified old hold hlt).le)
      · exact Or.inl hother
  | folded _ family memberIds sums hfresh hlength hmembers hparents =>
      rcases SortedMap.find_insert_eq_some_iff.mp hget with ⟨rfl, rfl⟩ | ⟨-, hother⟩
      · refine Or.inr (Or.inr (Or.inl ⟨rfl, rfl, ?_, ?_, family, ?_⟩))
        · show TwoDistinct sums.parents
          rw [hparents]
          exact hjustified hlength hmembers hfresh
        · show ∀ parent ∈ sums.parents, _
          rw [hparents]
          exact hmembers
        · show _ = Call.promoteToPrototype _ family sums.parents
          rw [hparents]
      · exact Or.inl hother
  | promoted _ uses ruleText proto hproto huses =>
      rcases SortedMap.find_insert_eq_some_iff.mp hget with ⟨rfl, rfl⟩ | ⟨-, hother⟩
      · refine Or.inr (Or.inr (Or.inr ⟨rfl, ⟨proto, hproto, hjustified proto hproto huses⟩, ?_⟩))
        exact ⟨_, List.mem_concat_self, rfl, huses⟩
      · exact Or.inl hother

/-- How a record was made stays so. -/
theorem MadeFromMembers.concat (h : MadeFromMembers ops config calls id record) (call : Call φ δ) :
    MadeFromMembers ops config (calls ++ [call]) id record := by
  obtain ⟨before, family, after, rfl, h⟩ := h
  exact ⟨before, family, after ++ [call], by rw [List.append_assoc, List.cons_append], h⟩

/-- What was a prototype stays one that was. -/
theorem WasPrototype.concat (h : WasPrototype ops config calls id) (call : Call φ δ) :
    WasPrototype ops config (calls ++ [call]) id := by
  obtain ⟨before, after, record, rfl, h⟩ := h
  exact ⟨before, after ++ [call], record, List.append_assoc _ _ _, h⟩

/-- A justified call keeps every tier earned. -/
theorem Earned.concat (h : Earned ops config calls)
    (hjustified : (run ops config calls).Justified call)
    (hdirect : ∀ record, call = .store record → record.fidelity ≤ .compressed) :
    Earned ops config (calls ++ [call]) := by
  obtain ⟨result, hchange, hresult⟩ := run_change ops config calls call
  refine ⟨fun id record hget hprototype => ?_, fun id record hget hrule => ?_⟩
  · rcases hchange.get_cases hjustified hdirect hget with
      hold | hle | ⟨-, hok, htwo, hstored, family, rfl⟩ | ⟨hrule, -⟩
    · exact (h.prototype id record hold hprototype).concat call
    · rw [hprototype] at hle
      exact absurd hle (by decide)
    · exact ⟨calls, family, [], rfl, hresult.symm.trans hok, htwo, hstored⟩
    · rw [hprototype] at hrule
      cases hrule
  · rcases hchange.get_cases hjustified hdirect hget with
      hold | hle | ⟨hprototype, -⟩ | ⟨-, ⟨proto, hproto, hle⟩, hexists⟩
    · obtain ⟨hwas, rule, hmem, hfrom, huses⟩ := h.rule id record hold hrule
      exact ⟨hwas.concat call, rule, hchange.rules_subset hmem, hfrom, huses⟩
    · rw [hrule] at hle
      exact absurd hle (by decide)
    · rw [hrule] at hprototype
      cases hprototype
    · rw [run_config] at hexists
      refine ⟨?_, hexists⟩
      rcases Fidelity.prototype_le_iff.mp hle with hprototype | hrule'
      · exact ⟨calls, [call], proto, rfl, hproto, hprototype⟩
      · exact (h.rule id proto hproto hrule').1.concat call

/-! ## The calls that are not -/

/-- The record of every rule stays at that tier. -/
theorem run_rules (calls : List (Call φ δ)) :
    ∀ rule ∈ (run ops config calls).rules, ∃ record,
      (run ops config calls).get rule.promotedFrom = some record ∧ record.fidelity = .rule := by
  induction calls using List.reverseRecOn with
  | nil => exact List.forall_mem_nil _
  | append_singleton calls call ih =>
      obtain ⟨_, hchange, -⟩ := run_change ops config calls call
      have hold : ∀ rule ∈ (run ops config calls).rules, ∃ record,
          (run ops config (calls ++ [call])).get rule.promotedFrom = some record ∧
            record.fidelity = .rule := by
        intro rule hrule
        obtain ⟨record, hget, hfidelity⟩ := ih rule hrule
        obtain ⟨later, hlater, hle⟩ := hchange.descends _ record hget
        exact ⟨later, hlater, le_antisymm later.fidelity.le_rule (hfidelity.symm.trans_le hle)⟩
      generalize run ops config (calls ++ [call]) = next at hchange hold ⊢
      cases hchange with
      | promoted prototypeId uses ruleText proto hproto huses =>
          intro rule hrule
          rcases List.mem_append.mp hrule with hmem | hnew
          · exact hold rule hmem
          · rw [List.mem_singleton] at hnew
            subst hnew
            exact ⟨{ proto with fidelity := .rule },
              SortedMap.find_insert_self _ _ _, rfl⟩
      | _ => exact hold

/-- What was a prototype still is one, or a rule. -/
theorem WasPrototype.le (h : WasPrototype ops config calls id)
    (hget : (run ops config calls).get id = some record) : .prototype ≤ record.fidelity := by
  obtain ⟨before, after, earlier, rfl, hearlier, hprototype⟩ := h
  obtain ⟨later, hlater, hle⟩ := run_descends before after id earlier hearlier
  rw [hget] at hlater
  cases hlater
  exact hprototype.symm.trans_le hle

/-- A promotion that succeeds leaves a prototype. -/
theorem Change.folded_get {prototypeId family : String} {memberIds : List String}
    (h : Change ops self (.promoteToPrototype prototypeId family memberIds) (next, .ok ())) :
    ∃ made, next.get prototypeId = some made ∧ made.fidelity = .prototype := by
  generalize hresult : Except.ok () = result at h
  cases h with
  | refused => cases hresult
  | remembered _ _ hcall => rcases hcall with ⟨_, hcall⟩ | ⟨_, hcall⟩ <;> cases hcall
  | stored _ _ _ hcall => rcases hcall with hcall | ⟨-, _, hcall⟩ <;> cases hcall
  | folded => exact ⟨_, SortedMap.find_insert_self _ _ _, rfl⟩

/-- What was made from members is a prototype, or a rule. -/
theorem MadeFromMembers.exists_get (h : MadeFromMembers ops config calls id record) :
    ∃ later, (run ops config calls).get id = some later ∧ .prototype ≤ later.fidelity := by
  obtain ⟨before, family, after, rfl, hok, -⟩ := h
  obtain ⟨result, hchange, hresult⟩ := run_change ops config before
    (.promoteToPrototype id family record.parents)
  rw [hresult, hok] at hchange
  obtain ⟨made, hget, hprototype⟩ := hchange.folded_get
  obtain ⟨later, hlater, hle⟩ := run_descends _ after id made hget
  rw [List.append_assoc] at hlater
  exact ⟨later, hlater, hprototype.symm.trans_le hle⟩

/-- A run with one more call made a record before it, or by it. -/
theorem MadeFromMembers.of_concat (h : MadeFromMembers ops config (calls ++ [call]) id record) :
    MadeFromMembers ops config calls id record ∨
      TwoDistinct record.parents ∧
        ∃ family, call = .promoteToPrototype id family record.parents := by
  obtain ⟨before, family, after, heq, hok, htwo, hstored⟩ := h
  rcases List.eq_nil_or_concat after with rfl | ⟨init, last, rfl⟩
  · obtain ⟨-, hcall⟩ := List.append_inj' heq rfl
    cases hcall
    exact Or.inr ⟨htwo, family, rfl⟩
  · rw [List.concat_eq_append, ← List.cons_append, ← List.append_assoc] at heq
    exact Or.inl ⟨before, family, init, (List.append_inj' heq rfl).1, hok, htwo, hstored⟩

/-- What was a prototype was one before the last call or is one after it. -/
theorem WasPrototype.of_concat (h : WasPrototype ops config (calls ++ [call]) id) :
    WasPrototype ops config calls id ∨ ∃ record,
      (run ops config (calls ++ [call])).get id = some record ∧ record.fidelity = .prototype := by
  obtain ⟨before, after, record, heq, hget, hprototype⟩ := h
  rcases List.eq_nil_or_concat after with rfl | ⟨init, last, rfl⟩
  · rw [List.append_nil] at heq
    subst heq
    exact Or.inr ⟨record, hget, hprototype⟩
  · rw [List.concat_eq_append, ← List.append_assoc] at heq
    exact Or.inl ⟨before, init, record, (List.append_inj' heq rfl).1, hget, hprototype⟩

/-- A call that leaves every tier earned is justified. -/
theorem Earned.justified (h : Earned ops config (calls ++ [call])) :
    (run ops config calls).Justified call := by
  have hnext := run_concat ops config calls call
  cases call with
  | compressTo id target =>
      intro record hget hlt
      rw [apply, compress_to_of_lt hget hlt] at hnext
      have hafter : (run ops config (calls ++ [.compressTo id target])).get id =
          some (reencoded ops record (encodingOf target) target) := by
        rw [hnext]
        exact SortedMap.find_insert_self _ _ _
      cases target with
      | raw => exact absurd hlt record.fidelity.not_lt_raw
      | compressed => rfl
      | prototype =>
          rcases (h.prototype id _ hafter rfl).of_concat with hmade | ⟨-, _, hcall⟩
          · obtain ⟨later, hlater, hle⟩ := hmade.exists_get
            rw [hget] at hlater
            cases hlater
            exact absurd hle (not_le.mpr hlt)
          · cases hcall
      | rule =>
          -- the rules are those of before, whose records are rules already
          obtain ⟨-, rule, hmem, hfrom, -⟩ := h.rule id _ hafter rfl
          rw [hnext] at hmem
          obtain ⟨old, hold, hrule⟩ := run_rules calls rule hmem
          rw [hfrom, hget] at hold
          cases hold
          rw [hrule] at hlt
          exact absurd hlt (lt_irrefl _)
  | promoteToPrototype prototypeId family memberIds =>
      intro hlength hmembers hfresh
      obtain ⟨made, hprototype, hafter⟩ := promote_to_prototype_of_stored ops
        family hlength hmembers hfresh
      rw [apply] at hnext
      rw [← hnext] at hafter
      rcases (h.prototype prototypeId made hafter hprototype).of_concat with
        hmade | ⟨htwo, _, hcall⟩
      · obtain ⟨later, hlater, -⟩ := hmade.exists_get
        rw [hfresh] at hlater
        cases hlater
      · cases hcall
        exact htwo
  | promoteToRule prototypeId uses ruleText =>
      intro record hget huses
      rw [apply, promote_to_rule_of_le hget huses] at hnext
      have hafter : (run ops config (calls ++ [.promoteToRule prototypeId uses ruleText])).get
          prototypeId = some { record with fidelity := .rule } := by
        rw [hnext]
        exact SortedMap.find_insert_self _ _ _
      rcases (h.rule prototypeId _ hafter rfl).1.of_concat with hwas | ⟨after, hget', hprototype⟩
      · exact hwas.le hget
      · rw [hafter] at hget'
        cases hget'
        cases hprototype
  | _ => trivial

/-! ## The law of a run -/

/-- Without calls nothing has to be earned. -/
theorem earned_nil : Earned ops config [] :=
  ⟨fun _ _ hget => (nomatch hget), fun _ _ hget => (nomatch hget)⟩

/-- Every tier is earned after every call of a run just when every call of it is justified. -/
theorem run_earned_iff (ops : Arithmetic φ δ) (config : MemoryConfig δ) (calls : List (Call φ δ))
    (hdirect : ∀ record, .store record ∈ calls → record.fidelity ≤ .compressed) :
    (∀ before after, calls = before ++ after → Earned ops config before) ↔
      ∀ before call after, calls = before ++ call :: after →
        (run ops config before).Justified call := by
  constructor
  · intro h before call after heq
    refine (h (before ++ [call]) after ?_).justified
    rw [heq, List.append_assoc, List.singleton_append]
  · intro h before
    induction before using List.reverseRecOn with
    | nil => exact fun _ _ => earned_nil
    | append_singleton before call ih =>
        intro after heq
        rw [List.append_assoc, List.singleton_append] at heq
        refine (ih (call :: after) heq).concat (h before call after heq) fun record hcall => ?_
        refine hdirect record ?_
        rw [heq, hcall]
        exact List.mem_append_right _ (List.mem_cons_self ..)

/-- The operations on the zeros of the sample. -/
def sampleOps : Arithmetic F32 F64 :=
  .ofFloat
    { add := fun a _ => a
      sub := fun a _ => a
      mul := fun a _ => a
      div := fun a _ => a
      min := fun a _ => a
      lt := fun _ _ => false
      le := fun _ _ => true
      ofNat := fun _ => ⟨0x40000000⟩
      fixed3 := fun _ => "0.000" }
    { add := fun a _ => a
      div := fun a _ => a
      lt := fun _ _ => false
      le := fun _ _ => true
      partialCmp := fun _ _ => some .eq
      ofNat := fun _ => ⟨0x4000000000000000⟩ }
    (fun _ => .zero) (fun latent _ => latent)

/-- A store of latents of two numbers. -/
def sampleConfig : MemoryConfig F64 := ⟨2, ⟨0x3fe0000000000000⟩, 3⟩

/-- A compressed record. -/
def sampleRecord (id : String) : TrajectoryRecord F32 F64 :=
  ⟨id, [.zero, .zero], .zero, "c", "plan", "ok", .zero, .compressed, .zero, []⟩

/-- The theorem at a prototype that becomes a rule. -/
theorem run_earned_iff_sample :
    Earned sampleOps sampleConfig [.store (sampleRecord "a"), .store (sampleRecord "b"),
      .promoteToPrototype "proto" "f" ["a", "b"], .promoteToRule "proto" 3 "f → p"] := by
  refine (run_earned_iff sampleOps sampleConfig _ ?_).mpr ?_ _ [] rfl
  · intro record hmem
    have hrecord : record = sampleRecord "a" ∨ record = sampleRecord "b" := by simpa using hmem
    rcases hrecord with rfl | rfl <;> decide
  · intro before call after heq
    rcases before with _ | ⟨_, _ | ⟨_, _ | ⟨_, _ | ⟨_, _ | _⟩⟩⟩⟩ <;> cases heq
    · trivial
    · trivial
    · exact fun _ _ _ => ⟨"a", by decide, "b", by decide, by decide⟩
    · intro record hget _
      have hprototype : ((run sampleOps sampleConfig [.store (sampleRecord "a"),
          .store (sampleRecord "b"), .promoteToPrototype "proto" "f" ["a", "b"]]).get
            "proto").map TrajectoryRecord.fidelity = some .prototype := by decide
      rw [hget] at hprototype
      exact (Option.some.inj hprototype).ge

/-- A compressed record becomes a rule without being a prototype. -/
theorem unearned_rule :
    ¬ ∀ calls : List (Call F32 F64),
      (∀ record, .store record ∈ calls → record.fidelity ≤ .compressed) →
      Earned sampleOps sampleConfig calls := by
  intro h
  have hearned := h ([.store (sampleRecord "a")] ++ [.promoteToRule "a" 3 "f → p"])
    fun record hmem => by
      obtain rfl : record = sampleRecord "a" := by simpa using hmem
      decide
  have hle : Fidelity.prototype ≤ .compressed :=
    hearned.justified (sampleRecord "a") (by decide) (by decide)
  exact absurd hle (by decide)

end InMemoryStore

end LatentMesh.Memory
