import LatentMesh.Lib.Decimal
import LatentMesh.Lib.JsString
import LatentMesh.Lib.Keyed

/-!
# JSON values of JavaScript

The values that `JSON.parse` returns, with the text that `JSON.stringify` writes for them. A value
is what stands at each of its paths (`Json.kindAt`), so that the order of the members of an object
does not matter. The text of a value tells everything but the sign of a zero and which of the
nulls were infinite (`Json.stringify_unique`).
-/

namespace LatentMesh.Lib

/-- A number other than NaN. A finite number that is not zero is given by its sign and the shortest
decimal that stands for its magnitude. -/
inductive JsNumber where
  | zero (negative : Bool)
  | finite (negative : Bool) (magnitude : Decimal)
  | infinite (negative : Bool)
  deriving DecidableEq

namespace JsNumber

/-- `Number::toString`. -/
def toText : JsNumber → List Char
  | zero _ => ['0']
  | finite negative magnitude => (if negative then ['-'] else []) ++ magnitude.text
  | infinite negative => (if negative then ['-'] else []) ++ "Infinity".toList

/-- The text of a number in JSON. -/
def json : JsNumber → List Char
  | infinite _ => "null".toList
  | number => number.toText

/-- The numbers that are `===` have one `strict` value. -/
def strict : JsNumber → JsNumber
  | zero _ => zero false
  | number => number

/-- A natural number as a number of the language. -/
def ofNat (n : Nat) : JsNumber :=
  if h : 0 < n then finite false (Decimal.ofPos n h) else zero false

/-- A natural number is printed as itself. -/
theorem of_nat_strict (n : Nat) : (ofNat n).strict = ofNat n := by
  unfold ofNat
  split <;> rfl

/-- The number tells the natural number. -/
theorem of_nat_injective {m n : Nat} (h : ofNat m = ofNat n) : m = n := by
  unfold ofNat at h
  split at h <;> split at h
  · rename_i hm hn
    injection h with _ hdecimal
    have hvalue := congrArg Decimal.value hdecimal
    rw [Decimal.of_pos_value, Decimal.of_pos_value] at hvalue
    exact_mod_cast hvalue
  · cases h
  · cases h
  · omega

end JsNumber

/-- A value of JSON. -/
inductive Json where
  | null
  | bool (value : Bool)
  | number (value : JsNumber)
  | string (value : JsString)
  | array (items : List Json)
  | object (members : List (JsString × Json))

namespace Json

mutual

/-- `JSON.stringify`. -/
def stringify : Json → List Char
  | null => "null".toList
  | bool true => "true".toList
  | bool false => "false".toList
  | number value => value.json
  | string value => quote value
  | array [] => ['[', ']']
  | array (item :: items) => '[' :: stringify item ++ stringifyItems items
  | object [] => ['{', '}']
  | object ((key, value) :: members) =>
      '{' :: quote key ++ ':' :: stringify value ++ stringifyMembers members

/-- The items after the first of an array. -/
def stringifyItems : List Json → List Char
  | [] => [']']
  | item :: items => ',' :: stringify item ++ stringifyItems items

/-- The members after the first of an object. -/
def stringifyMembers : List (JsString × Json) → List Char
  | [] => ['}']
  | (key, value) :: members =>
      ',' :: quote key ++ ':' :: stringify value ++ stringifyMembers members

end

/-! ## Properties -/

/-- `===`. Two objects, or two arrays, are not identical when they stand in different places. -/
def strictEq : Option Json → Option Json → Bool
  | none, none => true
  | some null, some null => true
  | some (bool first), some (bool second) => first = second
  | some (number first), some (number second) => first.strict = second.strict
  | some (string first), some (string second) => first = second
  | _, _ => false

mutual

/-- `String(value)`. It is a type error where `toString` is a property of the object. -/
def toJsString : Json → Option JsString
  | null => some (jsString "null")
  | bool true => some (jsString "true")
  | bool false => some (jsString "false")
  | number value => some (textUnits value.toText)
  | string value => some value
  | array items => (itemTexts items).map (jsString ",").intercalate
  | object members =>
      if members.any (·.1 = jsString "toString") then none
      else some (jsString "[object Object]")

/-- The items of an array as `join` writes them. -/
def itemTexts : List Json → Option (List JsString)
  | [] => some []
  | null :: items => (itemTexts items).map ([] :: ·)
  | item :: items => do
      let text ← toJsString item
      let texts ← itemTexts items
      some (text :: texts)

end

/-! ## Paths -/

/-- From a value to one inside it. -/
inductive Step where
  | key (key : JsString)
  | index (index : Nat)
  deriving DecidableEq

/-- The value that one step leads to. -/
def child : Json → Step → Option Json
  | object members, .key key => (Keyed.find Prod.fst members key).map Prod.snd
  | array items, .index index => items[index]?
  | _, _ => none

/-- `value.name`, `none` where it is undefined. -/
def get (value : Json) (name : String) : Option Json := value.child (.key (jsString name))

/-- The value at a path. -/
def find : List Step → Json → Option Json
  | [], value => some value
  | step :: path, value => (value.child step).bind (find path)

/-- A value without the values inside it. -/
inductive Kind where
  | null
  | bool (value : Bool)
  | number (value : JsNumber)
  | string (value : JsString)
  | array
  | object
  deriving DecidableEq

/-- The kind of a value, with the text of a leaf. -/
def kind : Json → Kind
  | null => .null
  | bool value => .bool value
  | number value => .number value.strict
  | string value => .string value
  | array _ => .array
  | object _ => .object

/-- The kind of the value at a path, if there is one. -/
def kindAt (path : List Step) (value : Json) : Option Kind := (find path value).map kind

/-- The two values are equal up to the order of the members of objects. -/
def SameUpToKeyOrder (first second : Json) : Prop := ∀ path, kindAt path first = kindAt path second

/-- No object inside the value has two members of one key. -/
def Distinct (value : Json) : Prop :=
  ∀ path members, find path value = some (object members) → Keyed.Distinct Prod.fst members

/-- The kind at a path is found step by step. -/
theorem kind_at_cons (step : Step) (path : List Step) (value : Json) :
    kindAt (step :: path) value = (value.child step).bind (kindAt path) := by
  unfold kindAt
  rw [find]
  cases value.child step <;> rfl

/-- The kind one step down. -/
theorem kind_at_single (step : Step) (value : Json) :
    kindAt [step] value = (value.child step).map kind := by
  rw [kind_at_cons]
  cases value.child step <;> rfl

/-- The values inside a value without repeated keys have none. -/
theorem Distinct.child {value inner : Json} {step : Step} (h : value.Distinct)
    (hchild : value.child step = some inner) : inner.Distinct := by
  intro path members hfind
  refine h (step :: path) members ?_
  rw [find, hchild]
  exact hfind

/-- The keys of an object without repeated keys. -/
theorem Distinct.keys {members : List (JsString × Json)} (h : (object members).Distinct) :
    Keyed.Distinct Prod.fst members :=
  h [] members rfl

/-- A value has no repeated keys if it has none itself and its children have none. -/
theorem Distinct.of_children {value : Json}
    (hkeys : ∀ members, value = object members → Keyed.Distinct Prod.fst members)
    (hchild : ∀ step inner, value.child step = some inner → inner.Distinct) : value.Distinct := by
  intro path members hfind
  cases path with
  | nil => exact hkeys members (Option.some.inj hfind)
  | cons step path =>
      obtain ⟨inner, hinner, hrest⟩ := Option.bind_eq_some_iff.mp hfind
      exact hchild step inner hinner path members hrest

/-- A value without values inside it. -/
theorem Distinct.of_leaf {value : Json} (hkind : value.kind ≠ .object)
    (hchild : ∀ step, value.child step = none) : value.Distinct := by
  refine Distinct.of_children ?_ fun step inner hinner => ?_
  · rintro members rfl
    exact absurd rfl hkind
  · rw [hchild] at hinner
    cases hinner

/-- An array of values without repeated keys has none. -/
theorem Distinct.array {items : List Json} (h : ∀ item ∈ items, item.Distinct) :
    (array items).Distinct := by
  refine Distinct.of_children (fun members heq => nomatch heq) fun step inner hinner => ?_
  cases step with
  | key key => cases hinner
  | index index => exact h inner (List.mem_of_getElem? hinner)

/-- An object with distinct keys over values without repeated keys has none. -/
theorem Distinct.object {members : List (JsString × Json)} (hkeys : Keyed.Distinct Prod.fst members)
    (h : ∀ member ∈ members, member.2.Distinct) : (object members).Distinct := by
  refine Distinct.of_children ?_ fun step inner hinner => ?_
  · rintro other ⟨⟩
    exact hkeys
  cases step with
  | index index => cases hinner
  | key key =>
      obtain ⟨member, hfind, rfl⟩ := Option.map_eq_some_iff.mp hinner
      exact h member (Keyed.mem_of_find hfind).1

/-- Two values whose children are the same. -/
theorem SameUpToKeyOrder.of_children {first second : Json} (hkind : first.kind = second.kind)
    (hchild : ∀ step, Option.Rel SameUpToKeyOrder (first.child step) (second.child step)) :
    SameUpToKeyOrder first second := by
  intro path
  cases path with
  | nil => exact congrArg some hkind
  | cons step path =>
      rw [kind_at_cons, kind_at_cons]
      have hrel := hchild step
      generalize first.child step = left, second.child step = right at hrel
      cases hrel with
      | none => rfl
      | some hsame => exact hsame path

/-! ## What a text tells -/

/-- An infinite number is written as null. -/
def Kind.printed : Kind → Kind
  | number (.infinite _) => null
  | kind => kind

/-- The two values are the same where they are written. -/
def SamePrinted (first second : Json) : Prop :=
  ∀ path, (kindAt path first).map Kind.printed = (kindAt path second).map Kind.printed

/-- Values of one kind with children that are printed alike are printed alike. -/
theorem SamePrinted.of_children {first second : Json}
    (hkind : first.kind.printed = second.kind.printed)
    (hchild : ∀ step, Option.Rel SamePrinted (first.child step) (second.child step)) :
    SamePrinted first second := by
  intro path
  cases path with
  | nil => exact congrArg some hkind
  | cons step path =>
      rw [kind_at_cons, kind_at_cons]
      have hrel := hchild step
      generalize first.child step = left, second.child step = right at hrel
      cases hrel with
      | none => rfl
      | some hsame => exact hsame path

/-- Leaves of one kind are printed alike. -/
theorem SamePrinted.of_leaf {first second : Json}
    (hkind : first.kind.printed = second.kind.printed) (hfirst : ∀ step, first.child step = none)
    (hsecond : ∀ step, second.child step = none) : SamePrinted first second := by
  refine SamePrinted.of_children hkind fun step => ?_
  rw [hfirst, hsecond]
  exact .none

/-- Items that are related stand at the same indices. -/
theorem rel_get_of_forall {R : Json → Json → Prop} {items other : List Json}
    (h : List.Forall₂ R items other) (index : Nat) : Option.Rel R items[index]? other[index]? := by
  induction h generalizing index with
  | nil => exact .none
  | cons hrel _ ih =>
      cases index with
      | zero => exact .some hrel
      | succ index => exact ih index

/-- Arrays of items that are printed alike are printed alike. -/
theorem SamePrinted.array {items other : List Json} (h : List.Forall₂ SamePrinted items other) :
    SamePrinted (.array items) (.array other) := by
  refine SamePrinted.of_children rfl fun step => ?_
  cases step with
  | key key => exact .none
  | index index => exact rel_get_of_forall h index

/-- Two members with one key and the same value. -/
def SameMember (first second : JsString × Json) : Prop :=
  first.1 = second.1 ∧ SamePrinted first.2 second.2

/-- Objects of members that are printed alike are printed alike. -/
theorem SamePrinted.object {members other : List (JsString × Json)}
    (h : List.Forall₂ SameMember members other) :
    SamePrinted (.object members) (.object other) := by
  refine SamePrinted.of_children rfl fun step => ?_
  cases step with
  | index index => exact .none
  | key key =>
      show Option.Rel SamePrinted ((Keyed.find Prod.fst members key).map Prod.snd)
        ((Keyed.find Prod.fst other key).map Prod.snd)
      induction h with
      | nil => exact .none
      | cons hsame _ ih =>
          simp only [Keyed.find, List.find?_cons, hsame.1] at ih ⊢
          cases decide (Prod.fst _ = key) with
          | true => exact .some hsame.2
          | false => exact ih

/-- A text that no number goes on in. -/
def Delimited (text : List Char) : Prop := ∀ c ∈ text.head?, ¬ Decimal.NumberChar c

/-- The text of a number ends where what delimits it begins. -/
theorem number_text_unique {first second rest rest' : List Char}
    (hfirst : ∀ c ∈ first, Decimal.NumberChar c) (hsecond : ∀ c ∈ second, Decimal.NumberChar c)
    (hrest : Delimited rest) (hrest' : Delimited rest') (h : first ++ rest = second ++ rest') :
    first = second ∧ rest = rest' := by
  induction first generalizing second with
  | nil =>
      cases second with
      | nil => exact ⟨rfl, h⟩
      | cons c second =>
          have hhead : c ∈ rest.head? := congrArg List.head? h
          exact absurd (hsecond c (List.mem_cons_self ..)) (hrest c hhead)
  | cons c first ih =>
      cases second with
      | nil =>
          have hhead : c ∈ rest'.head? := (congrArg List.head? h).symm
          exact absurd (hfirst c (List.mem_cons_self ..)) (hrest' c hhead)
      | cons d second =>
          obtain ⟨rfl, htail⟩ := List.cons.inj h
          obtain ⟨rfl, hrests⟩ := ih (fun d hd => hfirst d (List.mem_cons_of_mem _ hd))
            (fun d hd => hsecond d (List.mem_cons_of_mem _ hd)) htail
          exact ⟨rfl, hrests⟩

/-- The sign and the digits of a number. -/
theorem signed_text_unique {negative negative' : Bool} {magnitude magnitude' : Decimal}
    (h : (if negative then ['-'] else []) ++ magnitude.text =
      (if negative' then ['-'] else []) ++ magnitude'.text) :
    negative = negative' ∧ magnitude = magnitude' := by
  obtain ⟨c, text, htext, hdigit⟩ := magnitude.text_head
  obtain ⟨c', text', htext', hdigit'⟩ := magnitude'.text_head
  have hne : c ≠ '-' := by
    rintro rfl
    exact absurd hdigit (by decide)
  have hne' : c' ≠ '-' := by
    rintro rfl
    exact absurd hdigit' (by decide)
  cases negative <;> cases negative'
  · exact ⟨rfl, Decimal.text_injective h⟩
  · rw [htext] at h
    exact absurd (List.cons.inj h).1 hne
  · rw [htext'] at h
    exact absurd (List.cons.inj h).1.symm hne'
  · exact ⟨rfl, Decimal.text_injective (List.cons.inj h).2⟩

/-- The first character of a text, with one for all numbers. -/
def lead (c : Char) : Char := if c.isDigit ∨ c = '-' then '0' else c

/-- What the text of a value begins with. -/
def opening : Json → Char
  | null => 'n'
  | bool true => 't'
  | bool false => 'f'
  | number (.infinite _) => 'n'
  | number _ => '0'
  | string _ => '"'
  | array _ => '['
  | object _ => '{'

/-- The text of a finite number starts like a number. -/
theorem finite_text_head (negative : Bool) (magnitude : Decimal) :
    ∃ c rest, JsNumber.toText (.finite negative magnitude) = c :: rest ∧ lead c = '0' := by
  obtain ⟨c, text, htext, hdigit⟩ := magnitude.text_head
  cases negative with
  | false => exact ⟨c, text, htext, if_pos (Or.inl hdigit)⟩
  | true => exact ⟨'-', magnitude.text, rfl, rfl⟩

/-- The text of a value starts with its opening. -/
theorem stringify_head (value : Json) :
    ∃ c rest, value.stringify = c :: rest ∧ lead c = value.opening := by
  cases value with
  | null => exact ⟨'n', _, rfl, rfl⟩
  | bool value => cases value <;> exact ⟨_, _, rfl, rfl⟩
  | number value =>
      cases value with
      | zero negative => exact ⟨'0', [], rfl, rfl⟩
      | finite negative magnitude => exact finite_text_head negative magnitude
      | infinite negative => exact ⟨'n', _, rfl, rfl⟩
  | string value => exact ⟨'"', _, rfl, rfl⟩
  | array items => cases items <;> exact ⟨'[', _, rfl, rfl⟩
  | object members =>
      cases members with
      | nil => exact ⟨'{', _, rfl, rfl⟩
      | cons member members => exact ⟨'{', _, rfl, rfl⟩

/-- Equal texts start with values of one opening. -/
theorem opening_eq {first second : Json} {rest rest' : List Char}
    (h : first.stringify ++ rest = second.stringify ++ rest') : first.opening = second.opening := by
  obtain ⟨c, text, htext, hlead⟩ := stringify_head first
  obtain ⟨c', text', htext', hlead'⟩ := stringify_head second
  rw [htext, htext'] at h
  rw [← hlead, ← hlead', (List.cons.inj h).1]

/-- No value starts with a closing bracket. -/
theorem opening_ne_bracket (value : Json) : value.opening ≠ ']' := by
  cases value with
  | bool value => cases value <;> simp [opening]
  | number value => cases value <;> simp [opening]
  | _ => simp [opening]

/-- The text of a number has only characters of numbers. -/
theorem number_chars {number : JsNumber} (hopening : opening (.number number) = '0') {c : Char}
    (h : c ∈ number.json) : Decimal.NumberChar c := by
  cases number with
  | zero negative =>
      obtain rfl := List.mem_singleton.mp h
      exact Or.inl rfl
  | finite negative magnitude =>
      rcases List.mem_append.mp h with hsign | htext
      · cases negative with
        | false => cases hsign
        | true =>
            obtain rfl := List.mem_singleton.mp hsign
            exact Or.inr (by decide)
      · exact Decimal.text_chars htext
  | infinite negative => exact absurd hopening (by simp [opening])

/-- The text of zero is that of no other number. -/
theorem zero_text_ne_finite (negative : Bool) (magnitude : Decimal) :
    ['0'] ≠ JsNumber.toText (.finite negative magnitude) := by
  intro h
  cases negative with
  | false => exact magnitude.text_ne_zero h.symm
  | true => exact absurd (List.cons.inj h).1 (by decide)

/-- The text of a finite number tells the number up to the sign of zero. -/
theorem strict_eq_of_json_eq {first second : JsNumber} (hfirst : opening (.number first) = '0')
    (hsecond : opening (.number second) = '0') (h : first.json = second.json) :
    first.strict = second.strict := by
  cases first with
  | zero negative =>
      cases second with
      | zero negative' => rfl
      | finite negative' magnitude' => exact absurd h (zero_text_ne_finite _ _)
      | infinite negative' => exact absurd hsecond (by simp [opening])
  | finite negative magnitude =>
      cases second with
      | zero negative' => exact absurd h.symm (zero_text_ne_finite _ _)
      | finite negative' magnitude' =>
          obtain ⟨rfl, rfl⟩ := signed_text_unique h
          rfl
      | infinite negative' => exact absurd hsecond (by simp [opening])
  | infinite negative => exact absurd hfirst (by simp [opening])

/-- What follows an item of an array delimits it. -/
theorem items_delimited (items : List Json) (rest : List Char) :
    Delimited (stringifyItems items ++ rest) := by
  cases items with
  | nil =>
      rintro c ⟨⟩
      simp [Decimal.NumberChar]
  | cons item items =>
      rintro c ⟨⟩
      simp [Decimal.NumberChar]

/-- What follows a member of an object delimits it. -/
theorem members_delimited (members : List (JsString × Json)) (rest : List Char) :
    Delimited (stringifyMembers members ++ rest) := by
  cases members with
  | nil =>
      rintro c ⟨⟩
      simp [Decimal.NumberChar]
  | cons member members =>
      rintro c ⟨⟩
      simp [Decimal.NumberChar]

/-- Equal texts that start with numbers start with numbers that are printed alike. -/
theorem number_unique {first second : JsNumber} {rest rest' : List Char} (hrest : Delimited rest)
    (hrest' : Delimited rest') (h : first.json ++ rest = second.json ++ rest') :
    SamePrinted (number first) (number second) ∧ rest = rest' := by
  have hopening : opening (number first) = opening (number second) :=
    @opening_eq _ _ rest rest' (by simpa only [stringify] using h)
  have hleaf : ∀ value step, child (number value) step = none := fun value step => rfl
  by_cases hfinite : opening (number first) = '0'
  · have hfinite' := hopening ▸ hfinite
    obtain ⟨hjson, hrests⟩ := number_text_unique (fun c => number_chars hfinite)
      (fun c => number_chars hfinite') hrest hrest' h
    have hstrict := strict_eq_of_json_eq hfinite hfinite' hjson
    refine ⟨SamePrinted.of_leaf ?_ (hleaf _) (hleaf _), hrests⟩
    exact congrArg (fun value => (Kind.number value).printed) hstrict
  · have hinfinite : ∀ value, opening (number value) ≠ '0' →
        ∃ negative, value = .infinite negative := by
      intro value hvalue
      cases value with
      | infinite negative => exact ⟨negative, rfl⟩
      | _ => exact absurd rfl hvalue
    obtain ⟨negative, rfl⟩ := hinfinite first hfinite
    obtain ⟨negative', rfl⟩ := hinfinite second (hopening ▸ hfinite)
    exact ⟨SamePrinted.of_leaf rfl (hleaf _) (hleaf _), List.append_cancel_left h⟩

/-- An array that ends is not one that goes on. -/
theorem bracket_ne_stringify (value : Json) {text' rest rest' : List Char} :
    [']'] ++ rest ≠ value.stringify ++ text' ++ rest' := by
  intro h
  obtain ⟨c, text, htext, hlead⟩ := stringify_head value
  rw [htext] at h
  rw [← (List.cons.inj h).1] at hlead
  exact opening_ne_bracket value hlead.symm

/-- Equal texts that start with leaves of one kind go on alike. -/
theorem leaf_unique {first second : Json} {text rest rest' : List Char}
    (hkind : first.kind.printed = second.kind.printed) (hfirst : ∀ step, first.child step = none)
    (hsecond : ∀ step, second.child step = none) (h : text ++ rest = text ++ rest') :
    SamePrinted first second ∧ rest = rest' :=
  ⟨SamePrinted.of_leaf hkind hfirst hsecond, List.append_cancel_left h⟩

mutual

/-- The text of a value tells what of it is printed, and where the text ends. -/
theorem stringify_unique (first second : Json) {rest rest' : List Char} (hrest : Delimited rest)
    (hrest' : Delimited rest') (h : first.stringify ++ rest = second.stringify ++ rest') :
    SamePrinted first second ∧ rest = rest' := by
  have hopening := opening_eq h
  cases first with
  | null =>
      cases second with
      | null => exact leaf_unique rfl (fun _ => rfl) (fun _ => rfl) h
      | bool value => cases value <;> simp [opening] at hopening
      | number value =>
          cases value with
          | infinite negative => exact leaf_unique rfl (fun _ => rfl) (fun _ => rfl) h
          | _ => simp [opening] at hopening
      | _ => simp [opening] at hopening
  | bool value =>
      cases second with
      | bool value' =>
          cases value <;> cases value'
          · exact leaf_unique rfl (fun _ => rfl) (fun _ => rfl) h
          · simp [opening] at hopening
          · simp [opening] at hopening
          · exact leaf_unique rfl (fun _ => rfl) (fun _ => rfl) h
      | number value' => cases value <;> cases value' <;> simp [opening] at hopening
      | _ => cases value <;> simp [opening] at hopening
  | number value =>
      cases second with
      | null =>
          cases value with
          | infinite negative => exact leaf_unique rfl (fun _ => rfl) (fun _ => rfl) h
          | _ => simp [opening] at hopening
      | bool value' => cases value <;> cases value' <;> simp [opening] at hopening
      | number value' => exact number_unique hrest hrest' h
      | _ => cases value <;> simp [opening] at hopening
  | string value =>
      cases second with
      | bool value' => cases value' <;> simp [opening] at hopening
      | number value' => cases value' <;> simp [opening] at hopening
      | string value' =>
          obtain ⟨rfl, hrests⟩ := quote_unique h
          exact ⟨fun path => rfl, hrests⟩
      | _ => simp [opening] at hopening
  | array items =>
      cases second with
      | bool value' => cases value' <;> simp [opening] at hopening
      | number value' => cases value' <;> simp [opening] at hopening
      | array items' =>
          have hitems := @items_unique items items'
          cases items with
          | nil =>
              cases items' with
              | nil => exact ⟨SamePrinted.array .nil, List.append_cancel_left h⟩
              | cons item' items' =>
                  have hbracket := (List.cons.inj h).2
                  exact absurd hbracket (bracket_ne_stringify item')
          | cons item items =>
              cases items' with
              | nil =>
                  have hbracket := (List.cons.inj h).2
                  exact absurd hbracket.symm (bracket_ne_stringify item)
              | cons item' items' =>
                  obtain ⟨hsame, hrests⟩ := hitems (congrArg (',' :: ·) (List.cons.inj h).2)
                  exact ⟨SamePrinted.array hsame, hrests⟩
      | _ => simp [opening] at hopening
  | object members =>
      cases second with
      | bool value' => cases value' <;> simp [opening] at hopening
      | number value' => cases value' <;> simp [opening] at hopening
      | object members' =>
          have hmembers := @members_unique members members'
          cases members with
          | nil =>
              cases members' with
              | nil => exact ⟨SamePrinted.object .nil, List.append_cancel_left h⟩
              | cons member' members' =>
                  exact absurd (List.cons.inj (List.cons.inj h).2).1 (by decide)
          | cons member members =>
              cases members' with
              | nil => exact absurd (List.cons.inj (List.cons.inj h).2).1 (by decide)
              | cons member' members' =>
                  obtain ⟨hsame, hrests⟩ := hmembers (congrArg (',' :: ·) (List.cons.inj h).2)
                  exact ⟨SamePrinted.object hsame, hrests⟩
      | _ => simp [opening] at hopening

/-- The text of an array tells how its items are printed. -/
theorem items_unique (first second : List Json) {rest rest' : List Char}
    (h : stringifyItems first ++ rest = stringifyItems second ++ rest') :
    List.Forall₂ SamePrinted first second ∧ rest = rest' := by
  match first, second with
  | [], [] => exact ⟨.nil, (List.cons.inj h).2⟩
  | [], item' :: items' => exact absurd (List.cons.inj h).1 (by decide)
  | item :: items, [] => exact absurd (List.cons.inj h).1 (by decide)
  | item :: items, item' :: items' =>
      have hrest := (List.cons.inj h).2
      simp only [List.append_eq, List.append_assoc] at hrest
      obtain ⟨hsame, hitems⟩ := stringify_unique item item' (items_delimited items rest)
        (items_delimited items' rest') hrest
      obtain ⟨hsames, hrests⟩ := items_unique items items' hitems
      exact ⟨.cons hsame hsames, hrests⟩

/-- The text of an object tells how its members are printed. -/
theorem members_unique (first second : List (JsString × Json)) {rest rest' : List Char}
    (h : stringifyMembers first ++ rest = stringifyMembers second ++ rest') :
    List.Forall₂ SameMember first second ∧ rest = rest' := by
  match first, second with
  | [], [] => exact ⟨.nil, (List.cons.inj h).2⟩
  | [], (key', value') :: members' => exact absurd (List.cons.inj h).1 (by decide)
  | (key, value) :: members, [] => exact absurd (List.cons.inj h).1 (by decide)
  | (key, value) :: members, (key', value') :: members' =>
      have hrest := (List.cons.inj h).2
      simp only [List.append_eq, List.append_assoc] at hrest
      obtain ⟨hkey, hvalue⟩ := quote_unique hrest
      have hvalue' := (List.cons.inj hvalue).2
      simp only [List.append_eq] at hvalue'
      obtain ⟨hsame, hmembers⟩ := stringify_unique value value' (members_delimited members rest)
        (members_delimited members' rest') hvalue'
      obtain ⟨hsames, hrests⟩ := members_unique members members' hmembers
      exact ⟨.cons ⟨hkey, hsame⟩ hsames, hrests⟩

end

end Json

end LatentMesh.Lib
