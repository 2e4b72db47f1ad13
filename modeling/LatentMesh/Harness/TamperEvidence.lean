import LatentMesh.Harness.Receipts
import Mathlib.Data.List.Induction

/-!
# What the head of a chain pins

Under an injective SHA-256 the log of every sequence of `append` calls passes `verifyChain`. Of two
chains that pass and have one head, both with entries, the entries are equal up to the order of
their keys where the canonical form shows them; so they are equal exactly when they hide the same
(`tamper_evident_iff`). A chain without entries may declare any head as its genesis.
-/

namespace LatentMesh.Harness.Chain

open LatentMesh.Lib
open LatentMesh.Lib.Json (SameUpToKeyOrder)

/-- The receipt chain is tamper-evident: its logs pass, and its head pins the entries. -/
structure TamperEvident (sha256 : List UInt8 → List UInt8) : Prop where
  log_passes (calls : List (Json × Json)) :
    Passes sha256 (ReceiptLog.empty.appendAll sha256 calls).toJson
  head_pins (first second : Json) (entries entries' : List Json) :
    first.Distinct → second.Distinct → first.get "entries" = some (.array entries) →
      second.get "entries" = some (.array entries') → Passes sha256 first → Passes sha256 second →
      Json.strictEq (first.get "head") (second.get "head") = true →
      SameUpToKeyOrder (.array entries) (.array entries')
  canonical_pins (first second : Json) :
    first.Distinct → second.Distinct → canonical first = canonical second →
      SameUpToKeyOrder first second

variable {sha256 : List UInt8 → List UInt8}

/-! ## A receipt that passes -/

/-- A turn of the loop that finds nothing wrong. -/
structure Fits (sha256 : List UInt8 → List UInt8) (index : Nat) (prevHash next : Option Json)
    (receipt body : Json) : Prop where
  split : splitReceipt receipt = some (next, body)
  chains : Json.strictEq (receipt.get "prevHash") prevHash = true
  index_eq : Json.strictEq (body.get "index") (some (.number (.ofNat index))) = true
  hash_eq : Json.strictEq (some (.string (hash sha256 body))) next = true

/-- A failure is a reason. -/
theorem fail_not_clean (replay : Replay) (index : Nat) (reason : JsString) :
    (replay.fail index reason).reasons ≠ [] := by
  simp [Replay.fail]

/-- An entry that fits is replayed without a reason. -/
theorem replay_entry_of_fits {index : Nat} {replay : Replay} {next : Option Json}
    {receipt body : Json} (h : Fits sha256 index replay.prevHash next receipt body) :
    replayEntry sha256 receipt index replay = some { replay with prevHash := next } := by
  simp [replayEntry, h.split, checkPrevHash, h.chains, checkIndex, h.index_eq, checkHash, h.hash_eq]

/-- No reason is added when the previous hash is the one before. -/
theorem check_prev_hash_clean {receipt : Json} {index : Nat} {replay : Replay}
    (h : (checkPrevHash receipt index replay).reasons = []) :
    Json.strictEq (receipt.get "prevHash") replay.prevHash = true ∧
      checkPrevHash receipt index replay = replay := by
  unfold checkPrevHash at h ⊢
  split at h
  · rename_i hchains
    exact ⟨hchains, if_pos hchains⟩
  · exact absurd h (fail_not_clean _ _ _)

/-- No reason is added when the index is the position. -/
theorem check_index_clean {body : Json} {index : Nat} {replay after : Replay}
    (h : checkIndex body index replay = some after) (hclean : after.reasons = []) :
    Json.strictEq (body.get "index") (some (.number (.ofNat index))) = true ∧ after = replay := by
  unfold checkIndex at h
  split at h
  · rename_i hindex
    exact ⟨hindex, (Option.some.inj h).symm⟩
  · cases htext : shownText (body.get "index") with
    | none => rw [htext] at h; cases h
    | some shown =>
        rw [htext] at h
        obtain rfl := Option.some.inj h
        exact absurd hclean (fail_not_clean _ _ _)

/-- No reason is added when the hash is that of the body. -/
theorem check_hash_clean {body : Json} {thisHash : Option Json} {index : Nat} {replay : Replay}
    (h : (checkHash sha256 body thisHash index replay).reasons = []) :
    Json.strictEq (some (.string (hash sha256 body))) thisHash = true ∧
      checkHash sha256 body thisHash index replay = replay := by
  unfold checkHash at h ⊢
  split at h
  · rename_i hhash
    exact ⟨hhash, if_pos hhash⟩
  · exact absurd h (fail_not_clean _ _ _)

/-- A turn that ends without a reason found nothing wrong. -/
theorem fits_of_replay_entry {index : Nat} {replay after : Replay} {receipt : Json}
    (h : replayEntry sha256 receipt index replay = some after) (hclean : after.reasons = []) :
    replay.reasons = [] ∧
      ∃ body, Fits sha256 index replay.prevHash after.prevHash receipt body := by
  unfold replayEntry at h
  cases hsplit : splitReceipt receipt with
  | none => rw [hsplit] at h; cases h
  | some split =>
      obtain ⟨thisHash, body⟩ := split
      rw [hsplit] at h
      simp only [Option.bind_eq_bind, Option.bind_some] at h
      obtain ⟨middle, hcheck, hafter⟩ := Option.bind_eq_some_iff.mp h
      obtain rfl := Option.some.inj hafter
      obtain ⟨hhash, hsame⟩ := check_hash_clean hclean
      rw [hsame] at hclean
      obtain ⟨hindex, rfl⟩ := check_index_clean hcheck hclean
      obtain ⟨hchains, hprev⟩ := check_prev_hash_clean hclean
      rw [hprev] at hclean
      exact ⟨hclean, body, hsplit, hchains, hindex, hhash⟩

/-! ## Entries that pass -/

/-- The entries chain onto a hash, from an index on, and end in another. -/
def Linked (sha256 : List UInt8 → List UInt8) (index : Nat) (prevHash : Option Json) :
    List Json → Option Json → Prop
  | [], last => last = prevHash
  | receipt :: receipts, last =>
      ∃ next body, Fits sha256 index prevHash next receipt body ∧
        Linked sha256 (index + 1) next receipts last

/-- A replay without a reason shows that the entries are linked. -/
theorem linked_of_replay {entries : List Json} {index : Nat} {replay final : Replay}
    (h : replayFrom sha256 index replay entries = some final) (hclean : final.reasons = []) :
    replay.reasons = [] ∧ Linked sha256 index replay.prevHash entries final.prevHash := by
  induction entries generalizing index replay with
  | nil =>
      obtain rfl := Option.some.inj h
      exact ⟨hclean, rfl⟩
  | cons receipt receipts ih =>
      obtain ⟨after, hentry, hrest⟩ := Option.bind_eq_some_iff.mp h
      obtain ⟨hafter, hlinked⟩ := ih hrest
      obtain ⟨hreplay, body, hfits⟩ := fits_of_replay_entry hentry hafter
      exact ⟨hreplay, after.prevHash, body, hfits, hlinked⟩

/-- What a chain that passes consists of. -/
theorem Passes.linked {chain : Json} {entries : List Json} (h : Passes sha256 chain)
    (hentries : chain.get "entries" = some (.array entries)) :
    ∃ last, Linked sha256 0 (some (genesisOf chain)) entries last ∧
      Json.strictEq (chain.get "head") last = true := by
  obtain ⟨verdict, hverify, hpass⟩ := h
  unfold verifyChain at hverify
  rw [hentries] at hverify
  obtain ⟨final, hreplay, hverdict⟩ := Option.bind_eq_some_iff.mp hverify
  obtain rfl := Option.some.inj hverdict
  have hreasons := List.isEmpty_iff.mp hpass
  split at hreasons
  · rename_i hhead
    obtain ⟨-, hlinked⟩ := linked_of_replay hreplay hreasons
    exact ⟨final.prevHash, hlinked, hhead⟩
  · exact absurd hreasons (by simp)

/-- The last of linked entries fits to the others. -/
theorem linked_concat {receipts : List Json} {receipt : Json} {index : Nat}
    {prevHash last : Option Json} (h : Linked sha256 index prevHash (receipts ++ [receipt]) last) :
    ∃ middle body, Linked sha256 index prevHash receipts middle ∧
      Fits sha256 (index + receipts.length) middle last receipt body := by
  induction receipts generalizing index prevHash with
  | nil =>
      obtain ⟨next, body, hfits, rfl⟩ := h
      exact ⟨prevHash, body, rfl, hfits⟩
  | cons first receipts ih =>
      obtain ⟨next, body, hfits, hrest⟩ := h
      obtain ⟨middle, body', hlinked, hlast⟩ := ih hrest
      refine ⟨middle, body', ⟨next, body, hfits, hlinked⟩, ?_⟩
      rwa [List.length_cons, Nat.add_comm receipts.length, ← Nat.add_assoc]

/-! ## What one hash pins -/

/-- What is `===` a string is that string. -/
theorem strict_eq_string_iff {string : JsString} {value : Option Json} :
    Json.strictEq value (some (.string string)) = true ↔ value = some (.string string) := by
  cases value with
  | none => simp [Json.strictEq]
  | some value => cases value <;> simp [Json.strictEq]

/-- What a string is `===` to is that string. -/
theorem string_strict_eq_iff {string : JsString} {value : Option Json} :
    Json.strictEq (some (.string string)) value = true ↔ value = some (.string string) := by
  cases value with
  | none => simp [Json.strictEq]
  | some value => cases value <;> simp [Json.strictEq, eq_comm]

/-- What is `===` a number is one of its kind. -/
theorem number_strict_eq {number : JsNumber} {value : Option Json}
    (h : Json.strictEq value (some (.number number)) = true) :
    value.map Json.kind = some (.number number.strict) := by
  cases value with
  | none => simp [Json.strictEq] at h
  | some value =>
      cases value with
      | number other =>
          have hstrict : other.strict = number.strict := by simpa [Json.strictEq] using h
          simp [Json.kind, hstrict]
      | _ => simp [Json.strictEq] at h

/-- The hash tells the canonical text. -/
theorem hash_injective (hsha : sha256.Injective) {first second : Json}
    (h : hash sha256 first = hash sha256 second) : canonical first = canonical second :=
  String.ofList_inj.mp (Bridge.as_bytes_inj (hsha (hex_text_inj (js_string_inj.mp h))))

/-- A receipt that passes is an object with the hash of its other members. -/
theorem Fits.receipt {index : Nat} {prevHash next : Option Json} {receipt body : Json}
    (h : Fits sha256 index prevHash next receipt body) :
    next = some (.string (hash sha256 body)) ∧ ∃ members, receipt = .object members ∧
      receipt.get "thisHash" = some (.string (hash sha256 body)) ∧
      body = .object (members.filter fun member => member.1 ≠ jsString "thisHash") := by
  have hnext := string_strict_eq_iff.mp h.hash_eq
  have hsplit := h.split
  rw [hnext] at hsplit
  refine ⟨hnext, ?_⟩
  cases receipt with
  | object members =>
      obtain ⟨hthis, hbody⟩ := Prod.mk.inj (Option.some.inj hsplit)
      exact ⟨members, rfl, hthis, hbody.symm⟩
  | null => cases hsplit
  | _ => exact absurd (Prod.mk.inj (Option.some.inj hsplit)).1 (fun heq => nomatch heq)

/-- Apart from its own hash, a receipt has the members of its body. -/
theorem body_child {members : List Member} {step : Json.Step}
    (h : step ≠ .key (jsString "thisHash")) :
    Json.child (.object (members.filter fun member => member.1 ≠ jsString "thisHash")) step =
      Json.child (.object members) step := by
  cases step with
  | index index => rfl
  | key key =>
      show (Keyed.find Prod.fst _ key).map Prod.snd = (Keyed.find Prod.fst members key).map Prod.snd
      rw [Keyed.find_filter_ne, if_neg fun heq => h (congrArg Json.Step.key heq)]

/-- The body of an entry without repeated keys has none. -/
theorem body_distinct {members : List Member} (h : (Json.object members).Distinct) :
    (Json.object (members.filter fun member => member.1 ≠ jsString "thisHash")).Distinct := by
  intro path inner hfind
  cases path with
  | nil =>
      injection hfind with hfind
      injection hfind with hfind
      subst hfind
      exact h.keys.sublist (List.filter_sublist.map Prod.fst)
  | cons step path =>
      obtain ⟨value, hchild, hinner⟩ := Option.bind_eq_some_iff.mp hfind
      have hstep : step ≠ .key (jsString "thisHash") := by
        rintro rfl
        have hnone : Json.child (.object (members.filter fun member =>
            member.1 ≠ jsString "thisHash")) (.key (jsString "thisHash")) = none := by
          show (Keyed.find Prod.fst _ _).map Prod.snd = none
          rw [Keyed.find_filter_ne, if_pos rfl]
          rfl
        rw [hnone] at hchild
        cases hchild
      rw [body_child hstep] at hchild
      exact h (step :: path) inner (Option.bind_eq_some_iff.mpr ⟨value, hchild, hinner⟩)

/-- A natural number is printed as itself. -/
theorem of_nat_printed (n : Nat) :
    (Json.Kind.number (.ofNat n)).printed = .number (.ofNat n) := by
  unfold JsNumber.ofNat
  split <;> rfl

/-- A property with a name of the source is shown by the canonical form. -/
theorem SameVisible.property {first second : Json} (h : SameVisible first second) (name : String)
    (hname : name ≠ "__proto__") :
    ((first.get name).map Json.kind).map Json.Kind.printed =
      ((second.get name).map Json.kind).map Json.Kind.printed := by
  have hvisible : Visible [.key (jsString name)] := by
    simp [Visible, protoKey, js_string_inj, hname.symm]
  have hsame := h _ hvisible
  rw [Json.kind_at_single, Json.kind_at_single] at hsame
  exact hsame

/-- Two receipts with one hash. -/
theorem Fits.pins (hsha : sha256.Injective) {index index' : Nat}
    {prevHash prevHash' next : Option Json} {receipt receipt' body body' : Json}
    (hreceipt : Fits sha256 index prevHash next receipt body)
    (hreceipt' : Fits sha256 index' prevHash' next receipt' body')
    (hdistinct : receipt.Distinct) (hdistinct' : receipt'.Distinct) :
    SameVisible receipt receipt' ∧ index = index' := by
  obtain ⟨hnext, members, rfl, hthis, rfl⟩ := hreceipt.receipt
  obtain ⟨hnext', members', rfl, hthis', rfl⟩ := hreceipt'.receipt
  have hhash := Option.some.inj (hnext.symm.trans hnext')
  have hbody := canonical_pins (body_distinct hdistinct) (body_distinct hdistinct')
    (hash_injective hsha (Json.string.inj hhash))
  constructor
  · intro path hpath
    cases path with
    | nil => rfl
    | cons step path =>
        by_cases hstep : step = .key (jsString "thisHash")
        · subst hstep
          rw [Json.kind_at_cons, Json.kind_at_cons, show Json.child _ _ = _ from hthis,
            show Json.child _ _ = _ from hthis', hhash]
        · have hsame := hbody (step :: path) hpath
          rw [Json.kind_at_cons, Json.kind_at_cons, body_child hstep, body_child hstep] at hsame
          rw [Json.kind_at_cons, Json.kind_at_cons]
          exact hsame
  · have hindex := hbody.property "index" (by decide)
    rw [number_strict_eq hreceipt.index_eq, number_strict_eq hreceipt'.index_eq,
      JsNumber.of_nat_strict, JsNumber.of_nat_strict, Option.map_some, Option.map_some,
      of_nat_printed, of_nat_printed] at hindex
    exact JsNumber.of_nat_injective (Json.Kind.number.inj (Option.some.inj hindex))

/-! ## What the head pins -/

/-- The last hash of linked entries is a string. -/
theorem Linked.last_string {entries : List Json} {index : Nat} {prevHash last : Option Json}
    (h : Linked sha256 index prevHash entries last) (hne : entries ≠ []) :
    ∃ string, last = some (.string string) := by
  obtain ⟨receipts, receipt, rfl⟩ := (List.eq_nil_or_concat' entries).resolve_left hne
  obtain ⟨middle, body, -, hfits⟩ := linked_concat h
  exact ⟨_, hfits.receipt.1⟩

/-- Entries that end in one hash are the same where they are shown. The induction goes from the last
entry back, as an entry pins the hash of the one before it. -/
theorem linked_pins (hsha : sha256.Injective) {entries entries' : List Json}
    {genesis genesis' last : Option Json} (hdistinct : ∀ entry ∈ entries, entry.Distinct)
    (hdistinct' : ∀ entry ∈ entries', entry.Distinct)
    (h : Linked sha256 0 genesis entries last) (h' : Linked sha256 0 genesis' entries' last)
    (hne : entries ≠ []) (hne' : entries' ≠ []) : List.Forall₂ SameVisible entries entries' := by
  induction entries using List.reverseRecOn generalizing entries' last with
  | nil => exact absurd rfl hne
  | append_singleton receipts receipt ih =>
      obtain ⟨receipts', receipt', rfl⟩ := (List.eq_nil_or_concat' entries').resolve_left hne'
      obtain ⟨middle, body, hlinked, hfits⟩ := linked_concat h
      obtain ⟨middle', body', hlinked', hfits'⟩ := linked_concat h'
      rw [List.forall_mem_append, List.forall_mem_singleton] at hdistinct hdistinct'
      obtain ⟨hsame, hlength⟩ := hfits.pins hsha hfits' hdistinct.2 hdistinct'.2
      rw [Nat.zero_add, Nat.zero_add] at hlength
      refine List.rel_append ?_ (.cons hsame .nil)
      by_cases hreceipts : receipts = []
      · subst hreceipts
        obtain rfl := List.eq_nil_of_length_eq_zero hlength.symm
        exact .nil
      · have hreceipts' : receipts' ≠ [] := by
          rintro rfl
          exact hreceipts (List.eq_nil_of_length_eq_zero hlength)
        obtain ⟨hash, rfl⟩ := hlinked.last_string hreceipts
        obtain ⟨hash', rfl⟩ := hlinked'.last_string hreceipts'
        have hprev := hsame.property "prevHash" (by decide)
        rw [strict_eq_string_iff.mp hfits.chains, strict_eq_string_iff.mp hfits'.chains] at hprev
        obtain rfl := Json.Kind.string.inj (Option.some.inj hprev)
        exact ih hdistinct.1 hdistinct'.1 hlinked hlinked' hreceipts hreceipts'

/-- Arrays of items that look the same look the same. -/
theorem SameVisible.array {items other : List Json} (h : List.Forall₂ SameVisible items other) :
    SameVisible (.array items) (.array other) := by
  intro path hpath
  cases path with
  | nil => rfl
  | cons step path =>
      rw [Json.kind_at_cons, Json.kind_at_cons]
      cases step with
      | key key => rfl
      | index index =>
          show ((items[index]?).bind _).map _ = ((other[index]?).bind _).map _
          have hrel := Json.rel_get_of_forall h index
          generalize items[index]? = item, other[index]? = item' at hrel
          cases hrel with
          | none => rfl
          | some hsame => exact hsame path fun hmem => hpath (List.mem_cons_of_mem _ hmem)

/-- An array with items is not an empty one. -/
theorem not_same_of_empty {item : Json} {items : List Json} :
    ¬ SameUpToKeyOrder (.array (item :: items)) (.array []) ∧
      ¬ SameUpToKeyOrder (.array []) (.array (item :: items)) := by
  constructor
  · intro h
    cases h [.index 0]
  · intro h
    cases h [.index 0]

/-- What is `===` a string that is given is that string. -/
theorem strict_eq_trans_string {first second : Option Json} {string : JsString}
    (h : Json.strictEq first second = true) (hfirst : first = some (.string string)) :
    second = some (.string string) := by
  subst hfirst
  exact string_strict_eq_iff.mp h

/-- The entries of a chain without repeated keys have none. -/
theorem entries_distinct {chain : Json} {entries : List Json} (h : chain.Distinct)
    (hentries : chain.get "entries" = some (.array entries)) :
    ∀ entry ∈ entries, entry.Distinct := by
  intro entry hentry
  obtain ⟨index, hindex⟩ := List.getElem?_of_mem hentry
  exact @Json.Distinct.child _ _ (.index index) (h.child hentries) hindex

/-- Chains that pass with one head have the same entries if both have some or neither has, and they
hide the same. -/
theorem head_pins_iff (hsha : sha256.Injective) {first second : Json} {entries entries' : List Json}
    (hfirst : first.Distinct) (hsecond : second.Distinct)
    (hentries : first.get "entries" = some (.array entries))
    (hentries' : second.get "entries" = some (.array entries'))
    (hpasses : Passes sha256 first) (hpasses' : Passes sha256 second)
    (hhead : Json.strictEq (first.get "head") (second.get "head") = true) :
    SameUpToKeyOrder (.array entries) (.array entries') ↔
      (entries = [] ↔ entries' = []) ∧ SameHidden (.array entries) (.array entries') := by
  cases entries with
  | nil =>
      cases entries' with
      | nil => exact iff_of_true (fun path => rfl) ⟨Iff.rfl, fun path => rfl⟩
      | cons entry entries' =>
          exact iff_of_false not_same_of_empty.2 fun h => List.cons_ne_nil _ _ (h.1.mp rfl)
  | cons entry entries =>
      cases entries' with
      | nil =>
          exact iff_of_false not_same_of_empty.1 fun h => List.cons_ne_nil _ _ (h.1.mpr rfl)
      | cons entry' entries' =>
          obtain ⟨last, hlinked, hlast⟩ := hpasses.linked hentries
          obtain ⟨last', hlinked', hlast'⟩ := hpasses'.linked hentries'
          -- the head of the first chain is a hash, and so are the other three values
          obtain ⟨string, rfl⟩ := hlinked.last_string (List.cons_ne_nil _ _)
          have hstring := strict_eq_trans_string hhead (strict_eq_string_iff.mp hlast)
          obtain rfl := strict_eq_trans_string hlast' hstring
          have hsame := linked_pins hsha (entries_distinct hfirst hentries)
            (entries_distinct hsecond hentries') hlinked hlinked' (List.cons_ne_nil _ _)
            (List.cons_ne_nil _ _)
          rw [same_iff_hidden (SameVisible.array hsame)]
          exact (and_iff_right (iff_of_false (List.cons_ne_nil _ _) (List.cons_ne_nil _ _))).symm

/-! ## The log passes -/

/-- What a replay reads of an entry that was written. -/
theorem receipt_properties (receipt : Receipt) :
    splitReceipt receipt.toJson = some (some (.string receipt.thisHash), receipt.body) ∧
      receipt.toJson.get "prevHash" = some (.string receipt.prevHash) ∧
      receipt.body.get "index" = some (.number (.ofNat receipt.index)) := by
  refine ⟨?_, ?_, ?_⟩
  · simp [splitReceipt, Receipt.toJson, Receipt.body, Receipt.bodyMembers, Json.get, Json.child,
      Keyed.find, js_string_inj]
  · simp [Receipt.toJson, Receipt.bodyMembers, Json.get, Json.child, Keyed.find, js_string_inj]
  · simp [Receipt.body, Receipt.bodyMembers, Json.get, Json.child, Keyed.find]

/-- Joined entries are replayed part by part. -/
theorem replay_append (first second : List Json) (index : Nat) (replay : Replay) :
    replayFrom sha256 index replay (first ++ second) =
      (replayFrom sha256 index replay first).bind fun after =>
        replayFrom sha256 (index + first.length) after second := by
  induction first generalizing index replay with
  | nil => rfl
  | cons receipt first ih =>
      rw [List.cons_append, replayFrom, replayFrom]
      cases hentry : replayEntry sha256 receipt index replay with
      | none => rfl
      | some after =>
          show replayFrom sha256 (index + 1) after (first ++ second) = _
          rw [ih, List.length_cons, Nat.add_comm first.length, ← Nat.add_assoc]
          rfl

/-- The replay of the log finds nothing wrong, and ends in the head. -/
def ReceiptLog.Sound (sha256 : List UInt8 → List UInt8) (log : ReceiptLog) : Prop :=
  replayFrom sha256 0 ⟨some (.string genesis), none, []⟩ (log.receipts.map Receipt.toJson) =
    some ⟨some (.string log.head), none, []⟩

/-- The next entry fits to the log. -/
theorem next_receipt_fits (log : ReceiptLog) (step payload : Json) :
    Fits sha256 log.receipts.length (some (.string log.head))
      (some (.string (log.nextReceipt sha256 step payload).thisHash))
      (log.nextReceipt sha256 step payload).toJson (log.nextReceipt sha256 step payload).body := by
  obtain ⟨hsplit, hprev, hindex⟩ := receipt_properties (log.nextReceipt sha256 step payload)
  refine ⟨hsplit, ?_, ?_, ?_⟩
  · rw [hprev]
    exact string_strict_eq_iff.mpr rfl
  · rw [hindex]
    exact decide_eq_true rfl
  · exact string_strict_eq_iff.mpr rfl

/-- An append keeps a log sound. -/
theorem ReceiptLog.Sound.append {log : ReceiptLog} (h : log.Sound sha256) (step payload : Json) :
    (log.append sha256 step payload).Sound sha256 := by
  unfold ReceiptLog.Sound ReceiptLog.append at *
  dsimp only
  rw [List.map_append, replay_append, h, Option.bind_some, Nat.zero_add, List.length_map]
  have hhead : ReceiptLog.head ⟨log.receipts ++ [log.nextReceipt sha256 step payload]⟩ =
      (log.nextReceipt sha256 step payload).thisHash := by
    simp [ReceiptLog.head]
  have hentry := @replay_entry_of_fits sha256 log.receipts.length
    ⟨some (.string log.head), none, []⟩ _ _ _ (next_receipt_fits log step payload)
  rw [hhead, List.map_singleton, replayFrom, hentry]
  rfl

/-- Appends keep a log sound. -/
theorem ReceiptLog.Sound.appendAll {log : ReceiptLog} (h : log.Sound sha256)
    (calls : List (Json × Json)) : (log.appendAll sha256 calls).Sound sha256 := by
  induction calls generalizing log with
  | nil => exact h
  | cons call calls ih => exact ih (h.append call.1 call.2)

/-- What a replay reads of a log that was written. -/
theorem log_properties (log : ReceiptLog) :
    log.toJson.get "entries" = some (.array (log.receipts.map Receipt.toJson)) ∧
      log.toJson.get "head" = some (.string log.head) ∧ genesisOf log.toJson = .string genesis := by
  refine ⟨?_, ?_, ?_⟩
  · simp [ReceiptLog.toJson, Json.get, Json.child, Keyed.find, js_string_inj]
  · simp [ReceiptLog.toJson, Json.get, Json.child, Keyed.find, js_string_inj]
  · simp [genesisOf, ReceiptLog.toJson, Json.get, Json.child, Keyed.find]

/-- The log of every sequence of calls passes, without a reason. -/
theorem append_all_verifies (calls : List (Json × Json)) :
    verifyChain sha256 (ReceiptLog.empty.appendAll sha256 calls).toJson =
      some ⟨true, none, []⟩ := by
  have hempty : ReceiptLog.empty.Sound sha256 := by
    unfold ReceiptLog.Sound
    rfl
  have hsound := hempty.appendAll calls
  obtain ⟨hentries, hhead, hgenesis⟩ := log_properties (ReceiptLog.empty.appendAll sha256 calls)
  unfold verifyChain
  rw [hentries, hgenesis]
  dsimp only
  rw [show replayFrom _ _ _ _ = _ from hsound, hhead]
  simp [Json.strictEq]

/-- A chain without entries passes when its head is its genesis. -/
theorem empty_chain_passes (head : JsString) :
    Passes sha256 (.object [(jsString "genesis", .string head), (jsString "head", .string head),
      (jsString "entries", .array [])]) := by
  refine ⟨⟨true, none, []⟩, ?_, rfl⟩
  simp [verifyChain, genesisOf, Json.get, Json.child, Keyed.find, js_string_inj, replayFrom,
    Json.strictEq]

/-! ## The guarantee -/

/-- What of the guarantee holds: two chains that pass with one head, and two values with one
canonical form, are the same exactly where the chains both have entries or neither has, and nothing
hidden differs. -/
structure PinsShown (sha256 : List UInt8 → List UInt8) : Prop where
  log_passes (calls : List (Json × Json)) :
    Passes sha256 (ReceiptLog.empty.appendAll sha256 calls).toJson
  head_pins (first second : Json) (entries entries' : List Json) :
    first.Distinct → second.Distinct → first.get "entries" = some (.array entries) →
      second.get "entries" = some (.array entries') → Passes sha256 first → Passes sha256 second →
      Json.strictEq (first.get "head") (second.get "head") = true →
      (SameUpToKeyOrder (.array entries) (.array entries') ↔
        (entries = [] ↔ entries' = []) ∧ SameHidden (.array entries) (.array entries'))
  canonical_pins (first second : Json) :
    first.Distinct → second.Distinct → canonical first = canonical second →
      (SameUpToKeyOrder first second ↔ SameHidden first second)

/-- Where the hash has no collisions, every log passes its replay, and chains that pass with one
head have the same entries up to what the canonical form hides. -/
theorem tamper_evident_iff (hsha : sha256.Injective) : PinsShown sha256 where
  log_passes calls := ⟨_, append_all_verifies calls, rfl⟩
  head_pins _ _ _ _ hfirst hsecond hentries hentries' hpasses hpasses' hhead :=
    head_pins_iff hsha hfirst hsecond hentries hentries' hpasses hpasses' hhead
  canonical_pins _ _ hfirst hsecond hcanonical :=
    same_iff_hidden (canonical_pins hfirst hsecond hcanonical)

/-- A log with one receipt. -/
def genuineLog : ReceiptLog := ReceiptLog.empty.append id (.string (jsString "step")) .null

/-- The log with another payload. -/
def alteredLog : ReceiptLog := ReceiptLog.empty.append id (.string (jsString "step")) (.bool true)

/-- A string has no repeated keys. -/
theorem string_distinct (string : JsString) : (Json.string string).Distinct :=
  Json.Distinct.of_leaf (fun heq => nomatch heq) fun _ => rfl

/-- A chain of entries without repeated keys has none. -/
theorem chain_distinct {genesis head : JsString} {entries : List Json}
    (h : ∀ entry ∈ entries, entry.Distinct) :
    (Json.object [(jsString "genesis", .string genesis), (jsString "head", .string head),
      (jsString "entries", .array entries)]).Distinct := by
  refine Json.Distinct.object ?_ ?_
  · simp [Keyed.Distinct, js_string_inj]
  · simp [string_distinct, Json.Distinct.array h]

/-- An entry whose step and payload have no repeated keys has none. -/
theorem receipt_distinct {receipt : Receipt} (hstep : receipt.step.Distinct)
    (hpayload : receipt.payload.Distinct) : receipt.toJson.Distinct := by
  have hnumber : ∀ number, (Json.number number).Distinct := fun number =>
    Json.Distinct.of_leaf (fun heq => nomatch heq) fun _ => rfl
  refine Json.Distinct.object ?_ ?_
  · simp [Receipt.bodyMembers, Keyed.Distinct, js_string_inj]
  · simp [Receipt.bodyMembers, string_distinct, hnumber, hstep, hpayload]

/-- The two logs have no repeated keys. -/
theorem log_distinct : genuineLog.toJson.Distinct ∧ alteredLog.toJson.Distinct := by
  have hleaf : ∀ payload : Json, payload.Distinct → ∀ entry ∈
      (ReceiptLog.empty.append id (.string (jsString "step")) payload).receipts.map Receipt.toJson,
      entry.Distinct := by
    intro payload hpayload entry hentry
    obtain rfl := List.mem_singleton.mp hentry
    exact receipt_distinct (string_distinct _) hpayload
  exact ⟨chain_distinct (hleaf _ (Json.Distinct.of_leaf (fun heq => nomatch heq) fun _ => rfl)),
    chain_distinct (hleaf _ (Json.Distinct.of_leaf (fun heq => nomatch heq) fun _ => rfl))⟩

/-- A value hides nothing where it is not infinite, has no member `__proto__`, and what is inside it
hides nothing. -/
theorem hides_nothing {value : Json} (hkind : isInfinite value.kind = false)
    (hchild : ∀ step inner, value.child step = some inner →
      step ≠ .key protoKey ∧ ∀ path, hiddenAt path inner = none) (path : List Json.Step) :
    hiddenAt path value = none := by
  unfold hiddenAt
  cases path with
  | nil => simp [Visible, Json.kindAt, Json.find, hkind]
  | cons step path =>
      rw [Json.kind_at_cons]
      cases hstep : value.child step with
      | none => simp
      | some inner =>
          obtain ⟨hproto, hinner⟩ := hchild step inner hstep
          have hsame : Visible (step :: path) ↔ Visible path := by
            simp [Visible, hproto.symm]
          rw [if_congr hsame rfl rfl]
          exact hinner path

/-- A finite leaf hides nothing. -/
theorem leaf_hides_nothing {value : Json} (hnone : ∀ step, value.child step = none)
    (hkind : isInfinite value.kind = false) (path : List Json.Step) :
    hiddenAt path value = none :=
  hides_nothing hkind (fun step _ hinner => nomatch (hnone step).symm.trans hinner) path

/-- Receipts hide what their steps and payloads hide. -/
theorem receipts_hide_nothing {receipts : List Receipt}
    (h : ∀ receipt ∈ receipts, (∀ path, hiddenAt path receipt.step = none) ∧
      ∀ path, hiddenAt path receipt.payload = none) (path : List Json.Step) :
    hiddenAt path (.array (receipts.map Receipt.toJson)) = none := by
  refine hides_nothing rfl (fun step entry hentry => ?_) path
  cases step with
  | key key => cases hentry
  | index index =>
      refine ⟨(fun heq => nomatch heq), fun path => ?_⟩
      obtain ⟨receipt, hreceipt, rfl⟩ := List.mem_map.mp (List.mem_of_getElem? hentry)
      obtain ⟨hstep, hpayload⟩ := h receipt hreceipt
      have hleaf : ∀ value : Json, (∀ step, value.child step = none) →
          isInfinite value.kind = false → ∀ path, hiddenAt path value = none :=
        fun value => leaf_hides_nothing
      refine hides_nothing rfl (fun step inner hinner => ?_) path
      cases step with
      | index index => cases hinner
      | key key =>
          obtain ⟨member, hmember, rfl⟩ := Option.map_eq_some_iff.mp hinner
          obtain ⟨hmem, rfl⟩ := Keyed.mem_of_find hmember
          simp only [Receipt.bodyMembers, List.cons_append, List.nil_append, List.mem_cons,
            List.not_mem_nil, or_false] at hmem
          rcases hmem with rfl | rfl | rfl | rfl | rfl | rfl
          all_goals refine ⟨by simp [protoKey, js_string_inj], ?_⟩
          · refine hleaf _ (fun _ => rfl) ?_
            rw [Json.kind, JsNumber.of_nat_strict]
            unfold JsNumber.ofNat
            split <;> rfl
          · exact hstep
          · exact hleaf _ (fun _ => rfl) rfl
          · exact hpayload
          · exact hleaf _ (fun _ => rfl) rfl
          · exact hleaf _ (fun _ => rfl) rfl

/-- Both logs pass, and the altered one has another head. -/
theorem tamper_evident_iff_altered : Passes id genuineLog.toJson ∧ Passes id alteredLog.toJson ∧
    Json.strictEq (genuineLog.toJson.get "head") (alteredLog.toJson.get "head") = false := by
  have hpins : PinsShown id := tamper_evident_iff Function.injective_id
  have hgenuine : Passes id genuineLog.toJson :=
    hpins.log_passes [(.string (jsString "step"), .null)]
  have haltered : Passes id alteredLog.toJson :=
    hpins.log_passes [(.string (jsString "step"), .bool true)]
  refine ⟨hgenuine, haltered, Bool.eq_false_iff.mpr fun hhead => ?_⟩
  obtain ⟨hentries, -, -⟩ := log_properties genuineLog
  obtain ⟨hentries', -, -⟩ := log_properties alteredLog
  have hsame := (hpins.head_pins _ _ _ _ log_distinct.1 log_distinct.2 hentries hentries' hgenuine
    haltered hhead).mpr ⟨iff_of_false (List.cons_ne_nil _ _) (List.cons_ne_nil _ _), fun path => ?_⟩
  · -- the payloads are of two kinds
    have hpayload := hsame [.index 0, .key (jsString "payload")]
    simp [Json.kindAt, Json.find, Json.child, Keyed.find, genuineLog, alteredLog, js_string_inj,
      ReceiptLog.empty, ReceiptLog.append, ReceiptLog.nextReceipt, Receipt.toJson,
      Receipt.bodyMembers, Json.kind] at hpayload
  · rw [receipts_hide_nothing, receipts_hide_nothing]
    all_goals
      intro receipt hreceipt
      obtain rfl := List.mem_singleton.mp hreceipt
      exact ⟨leaf_hides_nothing (fun _ => rfl) rfl, leaf_hides_nothing (fun _ => rfl) rfl⟩

/-- The chain with its entries removed and its genesis moved to its head. -/
def emptiedChain : Json :=
  .object [(jsString "genesis", .string genuineLog.head),
    (jsString "head", .string genuineLog.head), (jsString "entries", .array [])]

/-- The emptied chain has the head of the log, a member `__proto__` leaves no trace in the canonical
form, and an infinite number leaves a null. -/
theorem tampering_unnoticed :
    (genuineLog.toJson.Distinct ∧ emptiedChain.Distinct ∧ Passes id genuineLog.toJson ∧
      Passes id emptiedChain ∧
      Json.strictEq (genuineLog.toJson.get "head") (emptiedChain.get "head") = true ∧
      genuineLog.toJson.get "entries" = some (.array (genuineLog.receipts.map Receipt.toJson)) ∧
      emptiedChain.get "entries" = some (.array []) ∧
      ¬ SameUpToKeyOrder (.array (genuineLog.receipts.map Receipt.toJson)) (.array [])) ∧
    (canonical (.object [(protoKey, .bool true)]) = canonical (.object []) ∧
      ¬ SameUpToKeyOrder (.object [(protoKey, .bool true)]) (.object [])) ∧
    (canonical (.number (.infinite false)) = canonical .null ∧
      ¬ SameUpToKeyOrder (.number (.infinite false)) .null) ∧
    ¬ TamperEvident id := by
  have hdistinct : genuineLog.toJson.Distinct := log_distinct.1
  have hemptied : emptiedChain.Distinct := chain_distinct fun entry hentry => nomatch hentry
  have hpasses : Passes id genuineLog.toJson :=
    ⟨_, append_all_verifies [(.string (jsString "step"), .null)], rfl⟩
  have hpasses' : Passes id emptiedChain := empty_chain_passes _
  obtain ⟨hentries, hhead, -⟩ := log_properties genuineLog
  have hhead' : emptiedChain.get "head" = some (.string genuineLog.head) := by
    simp [emptiedChain, Json.get, Json.child, Keyed.find, js_string_inj]
  have hentries' : emptiedChain.get "entries" = some (.array []) := by
    simp [emptiedChain, Json.get, Json.child, Keyed.find, js_string_inj]
  have hsame : Json.strictEq (genuineLog.toJson.get "head") (emptiedChain.get "head") = true := by
    rw [hhead, hhead']
    exact string_strict_eq_iff.mpr rfl
  have hother : ¬ SameUpToKeyOrder (.array (genuineLog.receipts.map Receipt.toJson)) (.array []) :=
    not_same_of_empty.1
  refine ⟨⟨hdistinct, hemptied, hpasses, hpasses', hsame, hentries, hentries', hother⟩, ⟨?_, ?_⟩,
    ⟨rfl, ?_⟩, fun h => ?_⟩
  · simp [canonical, sortKeys, sortMembers, sortByKey, assignAll, ownOrder]
  · intro h
    have hkey := h [.key protoKey]
    simp [Json.kindAt, Json.find, Json.child, Keyed.find] at hkey
  · intro h
    cases h []
  · exact hother (h.head_pins _ _ _ _ hdistinct hemptied hentries hentries' hpasses hpasses' hsame)

end LatentMesh.Harness.Chain
