import LatentMesh.Lib.Lines
import LatentMesh.Lib.Digits

/-!
# Signed messages of AgentBBS

`MessageBody::signing_bytes` of `wire.rs`, and the message that carries its hash and its signature.
The instant of a message, its RFC 3339 text, hexadecimal text, BLAKE3 and Ed25519 come from other
crates and are parameters. The fields of the text are not escaped: bodies whose fields have one line
are told apart by their signing bytes, but for a parent `-` (`signing_bytes_bind_iff`), and most
fields with more lines stand for other contents too (`exists_same_signing_bytes`).
-/

namespace LatentMesh.Bridge

open LatentMesh.Lib

/-- `as_bytes`. -/
def asBytes (text : String) : List UInt8 := text.toUTF8.data.toList

/-! ## Messages -/

/-- The bytes of a verifying key. -/
structure AgentId where
  bytes : Vector UInt8 32
  deriving DecidableEq, Repr

/-- `AgentId::to_hex`. -/
def AgentId.toHex (hexEncode : List UInt8 → String) (self : AgentId) : String :=
  hexEncode self.bytes.toList

/-- The id of a message, as a hexadecimal text. -/
structure MessageId where
  text : String
  deriving DecidableEq, Repr

/-- The kinds of messages of a board. -/
inductive MessageKind where
  | post
  | milestone
  | step
  deriving DecidableEq, Repr

/-- The text of a kind in the signed bytes. -/
def MessageKind.discriminant : MessageKind → String
  | post => "post"
  | milestone => "milestone"
  | step => "step"

/-- The body of a message; `τ` is `DateTime<Utc>`. -/
structure MessageBody (τ : Type) where
  board : String
  parent : Option MessageId
  subject : String
  body : String
  author : AgentId
  handle : String
  createdAt : τ
  kind : MessageKind
  deriving DecidableEq, Repr

namespace MessageBody

variable {τ : Type} (hexEncode : List UInt8 → String) (toRfc3339 : τ → String)

/-- The text of the parent, `-` where there is none. -/
def parentText (self : MessageBody τ) : String := (self.parent.map MessageId.text).getD "-"

/-- `MessageBody::signing_bytes`. -/
def signingBytes (self : MessageBody τ) : List UInt8 :=
  let isV2 : Bool := self.kind ≠ .post
  asBytes (if isV2 then "agentbbs.msg.v2\n" else "agentbbs.msg.v1\n") ++
    asBytes self.board ++ asBytes "\n" ++ asBytes self.parentText ++ asBytes "\n" ++
    (if isV2 then asBytes self.kind.discriminant ++ asBytes "\n" else []) ++
    asBytes self.subject ++ asBytes "\n" ++ asBytes (self.author.toHex hexEncode) ++ asBytes "\n" ++
    asBytes self.handle ++ asBytes "\n" ++ asBytes (toRfc3339 self.createdAt) ++ asBytes "\n" ++
    asBytes (toString (asBytes self.body).length ++ ":") ++ asBytes self.body

/-- `MessageBody::id`. -/
def id (blake3 : List UInt8 → Vector UInt8 32) (self : MessageBody τ) : MessageId :=
  ⟨hexEncode (blake3 (self.signingBytes hexEncode toRfc3339)).toList⟩

end MessageBody

abbrev SignatureBytes := Vector UInt8 64

/-- A signed message. -/
structure Message (τ : Type) where
  id : MessageId
  body : MessageBody τ
  signature : SignatureBytes
  deriving DecidableEq, Repr

/-- The errors of `WireError` that a message gives. -/
inductive WireError where
  | malformed (field reason : String)
  | badSignature
  deriving DecidableEq, Repr

/-- `Message::verify`. -/
def Message.verify {τ : Type} (hexEncode : List UInt8 → String) (toRfc3339 : τ → String)
    (blake3 : List UInt8 → Vector UInt8 32)
    (ed25519 : AgentId → List UInt8 → SignatureBytes → Bool) (self : Message τ) :
    Except WireError Unit :=
  if self.body.id hexEncode toRfc3339 blake3 ≠ self.id then
    .error (.malformed "message" "id does not match content")
  else if ed25519 self.body.author (self.body.signingBytes hexEncode toRfc3339) self.signature then
    .ok ()
  else .error .badSignature

/-! ## The text that is signed -/

/-- The bytes of joined texts are joined. -/
theorem as_bytes_append (first second : String) :
    asBytes (first ++ second) = asBytes first ++ asBytes second := by
  simp only [asBytes, String.toUTF8_eq_toByteArray, String.toByteArray_append,
    ByteArray.data_append, Array.toList_append]

/-- The bytes tell the text. -/
theorem as_bytes_inj {first second : String} (h : asBytes first = asBytes second) :
    first = second :=
  String.toByteArray_inj.mp (ByteArray.ext (Array.toList_inj.mp h))

/-- A text without a line break. -/
def SingleLine (text : String) : Prop := '\n' ∉ text.toList

instance (text : String) : Decidable (SingleLine text) :=
  inferInstanceAs (Decidable (_ ∉ _))

/-- A decimal number has no line break. -/
theorem decimal_single_line (n : Nat) : SingleLine (toString n) :=
  fun hmem => absurd (is_digit_of_mem_decimal hmem) (by decide)

/-- What the crate `hex` documents of `hex::encode`: the text has lower-case digits only, and the
bytes can be decoded from it. -/
structure HexEncodes (hexEncode : List UInt8 → String) : Prop where
  digits : ∀ bytes, ∀ c ∈ (hexEncode bytes).toList, c ∈ hexDigits
  injective : Function.Injective hexEncode

/-- A hexadecimal text has the properties of the encoder. -/
theorem hex_text_encodes : HexEncodes hexText where
  digits _ _ hmem := mem_hex_text hmem
  injective _ _ h := hex_text_inj h

variable {hexEncode : List UInt8 → String}

/-- A hexadecimal text has no line break. -/
theorem HexEncodes.single_line (h : HexEncodes hexEncode) (bytes : List UInt8) :
    SingleLine (hexEncode bytes) :=
  fun hmem => absurd (h.digits bytes _ hmem) (by decide)

/-- A decimal number has no colon. -/
theorem colon_not_mem_decimal (n : Nat) : ':' ∉ (toString n).toList := by
  intro hmem
  exact absurd (is_digit_of_mem_decimal hmem) (by decide)

namespace MessageBody

variable {τ : Type} {toRfc3339 : τ → String} {first second : MessageBody τ}

/-- The lines of the text before the body. -/
def lines (hexEncode : List UInt8 → String) (toRfc3339 : τ → String) (self : MessageBody τ) :
    List String :=
  (if self.kind ≠ .post then "agentbbs.msg.v2" else "agentbbs.msg.v1") :: self.board ::
    self.parentText :: ((if self.kind ≠ .post then [self.kind.discriminant] else []) ++
      [self.subject, self.author.toHex hexEncode, self.handle, toRfc3339 self.createdAt])

/-- The text whose bytes are signed. -/
def signingText (hexEncode : List UInt8 → String) (toRfc3339 : τ → String)
    (self : MessageBody τ) : String :=
  String.ofList (terminated '\n' ((self.lines hexEncode toRfc3339).map String.toList) ++
    ((toString (asBytes self.body).length).toList ++ ':' :: self.body.toList))

/-- The signed bytes are those of the signed text. -/
theorem signing_bytes_eq (self : MessageBody τ) :
    self.signingBytes hexEncode toRfc3339 = asBytes (self.signingText hexEncode toRfc3339) := by
  have htext (lines : List String) (version text : String)
      (hlines : self.lines hexEncode toRfc3339 = version :: lines)
      (htext : text.toList =
        version.toList ++ '\n' :: (terminated '\n' (lines.map String.toList) ++
          ((toString (asBytes self.body).length).toList ++ ':' :: self.body.toList))) :
      asBytes text = asBytes (self.signingText hexEncode toRfc3339) := by
    refine congrArg asBytes (String.toList_inj.mp ?_)
    rw [htext, signingText, String.toList_ofList, hlines, List.map_cons, terminated_cons]
  unfold signingBytes
  by_cases hpost : self.kind = .post
  · simp only [hpost, ne_eq, not_true, decide_false, Bool.false_eq_true, if_false,
      List.append_nil, ← as_bytes_append]
    refine htext _ "agentbbs.msg.v1" _ (by rw [lines, if_neg (not_not.mpr hpost)]) ?_
    simp [terminated, hpost]
  · simp only [hpost, ne_eq, not_false_iff, decide_true, if_true, ← as_bytes_append]
    refine htext _ "agentbbs.msg.v2" _ (by rw [lines, if_pos hpost]) ?_
    simp [terminated, hpost]

/-- The fields that anybody may fill in have one line. -/
structure HasSingleLines (message : MessageBody τ) : Prop where
  board : SingleLine message.board
  parent : SingleLine message.parentText
  subject : SingleLine message.subject
  handle : SingleLine message.handle

/-- The lines of a body without line breaks in its fields have none. -/
theorem HasSingleLines.lines (hhex : HexEncodes hexEncode) (h : first.HasSingleLines)
    (htime : SingleLine (toRfc3339 first.createdAt)) :
    ∀ line ∈ (first.lines hexEncode toRfc3339).map String.toList, '\n' ∉ line := by
  have hversion : SingleLine
      (if first.kind ≠ .post then "agentbbs.msg.v2" else "agentbbs.msg.v1") := by
    split <;> decide
  have hkind : ∀ line ∈ (if first.kind ≠ .post then [first.kind.discriminant] else []),
      SingleLine line := by
    split
    · refine List.forall_mem_singleton.mpr ?_
      cases first.kind <;> decide
    · exact fun _ hmem => absurd hmem List.not_mem_nil
  refine List.forall_mem_map.mpr ?_
  simp only [MessageBody.lines, List.forall_mem_cons, List.forall_mem_append]
  exact ⟨hversion, h.board, h.parent, hkind, h.subject, hhex.single_line _, h.handle,
    htime, fun _ hmem => absurd hmem List.not_mem_nil⟩

/-- The two bodies differ in the parent alone, which is missing in one and `-` in the other. -/
def DashTwins (first second : MessageBody τ) : Prop :=
  second = { first with parent := second.parent } ∧
    (first.parent = none ∧ second.parent = some ⟨"-"⟩ ∨
      first.parent = some ⟨"-"⟩ ∧ second.parent = none)

/-- The line of the parent tells the parent, but for a parent that is written as none. -/
theorem parent_text_eq_iff : first.parentText = second.parentText ↔
    first.parent = second.parent ∨ first.parent = none ∧ second.parent = some ⟨"-"⟩ ∨
      first.parent = some ⟨"-"⟩ ∧ second.parent = none := by
  unfold parentText
  rcases first.parent with _ | ⟨⟨text⟩⟩ <;> rcases second.parent with _ | ⟨⟨other⟩⟩
  · simp
  · simp [eq_comm]
  · simp
  · simp

/-- The lines and the rest of the text are read back. -/
theorem lines_eq_of_signing_bytes (hhex : HexEncodes hexEncode) (hfirst : first.HasSingleLines)
    (hsecond : second.HasSingleLines)
    (htime : ∀ time, SingleLine (toRfc3339 time))
    (h : first.signingBytes hexEncode toRfc3339 = second.signingBytes hexEncode toRfc3339) :
    first.lines hexEncode toRfc3339 = second.lines hexEncode toRfc3339 ∧
      first.body = second.body := by
  rw [signing_bytes_eq, signing_bytes_eq] at h
  have htext := String.ofList_inj.mp (as_bytes_inj h)
  have hfirstLines := hfirst.lines hhex (htime first.createdAt)
  have hsecondLines := hsecond.lines hhex (htime second.createdAt)
  -- the first line says how many there are
  have hversion : (first.kind = .post ↔ second.kind = .post) := by
    obtain ⟨hhead, -⟩ := field_inj (List.forall_mem_cons.mp hfirstLines).1
      (List.forall_mem_cons.mp hsecondLines).1
      ((terminated_cons _ _ _ _).symm.trans (htext.trans (terminated_cons _ _ _ _)))
    by_cases hfirstPost : first.kind = .post <;> by_cases hsecondPost : second.kind = .post
    · exact iff_of_true hfirstPost hsecondPost
    · rw [if_neg (not_not.mpr hfirstPost), if_pos hsecondPost] at hhead
      exact absurd hhead (by decide)
    · rw [if_pos hfirstPost, if_neg (not_not.mpr hsecondPost)] at hhead
      exact absurd hhead (by decide)
    · exact iff_of_false hfirstPost hsecondPost
  have hlength : ((first.lines hexEncode toRfc3339).map String.toList).length =
      ((second.lines hexEncode toRfc3339).map String.toList).length := by
    simp only [lines, List.length_map, List.length_cons, List.length_append, ne_eq, hversion]
    split <;> rfl
  obtain ⟨hlines, hrest⟩ := terminated_inj hfirstLines hsecondLines hlength htext
  obtain ⟨-, hbody⟩ := field_inj (colon_not_mem_decimal _) (colon_not_mem_decimal _) hrest
  exact ⟨List.map_injective_iff.mpr (fun _ _ => String.toList_inj.mp) hlines,
    String.toList_inj.mp hbody⟩

/-- The line of the kind, which a post does not have, tells the kinds apart. -/
theorem kind_eq_of_line_eq : ∀ first second : MessageKind,
    (if first ≠ .post then [first.discriminant] else []) =
      (if second ≠ .post then [second.discriminant] else []) → first = second := by
  intro first second
  cases first <;> cases second <;> decide

/-- The text of an agent id tells the id. -/
theorem AgentId.to_hex_inj (hhex : HexEncodes hexEncode) {first second : AgentId}
    (h : first.toHex hexEncode = second.toHex hexEncode) : first = second :=
  (AgentId.mk.injEq ..).mpr (Vector.toList_inj.mp (hhex.injective h))

/-- The lines give all fields but the body back, and the parent up to its text. -/
theorem eq_of_lines_eq (hhex : HexEncodes hexEncode)
    (htimes : ∀ time other, toRfc3339 time = toRfc3339 other → time = other)
    (hlines : first.lines hexEncode toRfc3339 = second.lines hexEncode toRfc3339)
    (hbody : first.body = second.body) :
    second = { first with parent := second.parent } ∧ first.parentText = second.parentText := by
  obtain ⟨-, htail⟩ := List.cons.inj hlines
  obtain ⟨hboard, htail⟩ := List.cons.inj htail
  obtain ⟨hparent, htail⟩ := List.cons.inj htail
  obtain ⟨hkind, hrest⟩ := List.append_inj' htail rfl
  simp only [List.cons.injEq, and_true] at hrest
  obtain ⟨hsubject, hauthor, hhandle, htime⟩ := hrest
  refine ⟨?_, hparent⟩
  rw [MessageBody.mk.injEq]
  exact ⟨hboard.symm, rfl, hsubject.symm, hbody.symm, (AgentId.to_hex_inj hhex hauthor).symm,
    hhandle.symm, (htimes _ _ htime).symm, (kind_eq_of_line_eq _ _ hkind).symm⟩

/-- Bodies that differ in such a parent only are signed alike. -/
theorem signing_bytes_dash_twins (h : first.DashTwins second) :
    first.signingBytes hexEncode toRfc3339 = second.signingBytes hexEncode toRfc3339 := by
  obtain ⟨hsame, hparent⟩ := h
  have htext : first.parentText = second.parentText := parent_text_eq_iff.mpr (Or.inr hparent)
  rw [hsame, signingBytes, signingBytes, htext]
  rfl

/-- Bodies whose fields have one line are told apart by their signing bytes exactly when they are
not twins. -/
theorem signing_bytes_bind_iff (hexEncode : List UInt8 → String) (hhex : HexEncodes hexEncode)
    (toRfc3339 : τ → String)
    (htimes : ∀ time other, toRfc3339 time = toRfc3339 other → time = other)
    (hline : ∀ time, SingleLine (toRfc3339 time)) (first second : MessageBody τ)
    (hfirst : first.HasSingleLines) (hsecond : second.HasSingleLines) :
    (first.signingBytes hexEncode toRfc3339 = second.signingBytes hexEncode toRfc3339 →
      first = second) ↔
      ¬ first.DashTwins second := by
  constructor
  · intro hbind htwins
    obtain rfl := hbind (signing_bytes_dash_twins htwins)
    obtain ⟨-, ⟨hnone, hsome⟩ | ⟨hsome, hnone⟩⟩ := htwins <;> rw [hnone] at hsome <;> cases hsome
  · intro htwins hbytes
    obtain ⟨hlines, hbody⟩ := lines_eq_of_signing_bytes hhex hfirst hsecond hline hbytes
    obtain ⟨hsame, htext⟩ := eq_of_lines_eq hhex htimes hlines hbody
    rcases parent_text_eq_iff.mp htext with hparent | hparent
    · rw [hsame, ← hparent]
    · exact absurd ⟨hsame, hparent⟩ htwins

/-- A post of the agent whose key is all zeros; `Unit` is the instant of its text. -/
def samplePost (board : String) (parent : Option String) (subject : String) : MessageBody Unit where
  board := board
  parent := parent.map MessageId.mk
  subject := subject
  body := "hi"
  author := ⟨Vector.replicate 32 0⟩
  handle := "wildcat"
  createdAt := ()
  kind := .post

/-- A clock that always gives one text. -/
def sampleRfc3339 : Unit → String := fun _ => "2026-08-27T00:00:00+00:00"

/-- The theorem at two posts. -/
theorem signing_bytes_bind_sample :
    (samplePost "general" none "hello").HasSingleLines ∧
      (samplePost "general" none "hello").signingBytes hexText sampleRfc3339 ≠
        (samplePost "general" (some "x") "hello").signingBytes hexText sampleRfc3339 := by
  have hfirst : (samplePost "general" none "hello").HasSingleLines :=
    ⟨by decide, by decide, by decide, by decide⟩
  refine ⟨hfirst, fun hbytes => ?_⟩
  have hsame : samplePost "general" none "hello" = samplePost "general" (some "x") "hello" := by
    refine (signing_bytes_bind_iff hexText hex_text_encodes sampleRfc3339 (fun _ _ _ => rfl)
      (fun _ => show SingleLine "2026-08-27T00:00:00+00:00" by decide) _ _ hfirst
      ⟨by decide, by decide, by decide, by decide⟩).mpr ?_ hbytes
    rintro ⟨-, ⟨-, h⟩ | ⟨h, -⟩⟩
    · exact absurd h (by decide)
    · cases h
  exact absurd (congrArg MessageBody.parent hsame) (by decide)

/-- A line break in the board makes its second line the parent. -/
theorem signing_bytes_same_lines :
    ¬ ∀ first second : MessageBody Unit,
      first.signingBytes hexText sampleRfc3339 = second.signingBytes hexText sampleRfc3339 →
        first = second := by
  intro h
  have hsame := h (samplePost "general\nx" none "hello")
    (samplePost "general" (some "x") "-\nhello")
    (by decide)
  exact absurd (congrArg MessageBody.board hsame) (by decide)

/-- A text with a line break is cut at one. -/
theorem split_of_not_single_line {text : String} (h : ¬ SingleLine text) :
    ∃ front rest, text = front ++ "\n" ++ rest := by
  obtain ⟨front, rest, htext⟩ := List.append_of_mem (not_not.mp h)
  refine ⟨String.ofList front, String.ofList rest, String.toList_inj.mp ?_⟩
  rw [htext, String.toList_append, String.toList_append, String.toList_ofList,
    String.toList_ofList (l := rest), List.append_assoc]
  rfl

/-- A longer text is another text. -/
theorem ne_of_longer {text longer : String} (h : text.length < longer.length) : text ≠ longer :=
  fun heq => Nat.ne_of_lt h (congrArg String.length heq)

/-- A line break in the board or in the parent, or in the subject of a post, always stands for
another content too. -/
theorem exists_same_signing_bytes (hexEncode : List UInt8 → String) (toRfc3339 : τ → String)
    (message : MessageBody τ)
    (h : ¬ SingleLine message.board ∨ ¬ SingleLine message.parentText ∨
      message.kind = .post ∧ ¬ SingleLine message.subject) :
    ∃ other, other ≠ message ∧
      other.signingBytes hexEncode toRfc3339 = message.signingBytes hexEncode toRfc3339 := by
  rcases h with hboard | hparent | ⟨hpost, hsubject⟩
  · -- the second line of the board goes to the parent
    obtain ⟨front, rest, hsplit⟩ := split_of_not_single_line hboard
    refine ⟨{ message with
      board := front, parent := some ⟨rest ++ "\n" ++ message.parentText⟩ }, fun hsame => ?_, ?_⟩
    · refine ne_of_longer ?_ ((congrArg MessageBody.board hsame).trans hsplit)
      simp only [String.length_append]
      show _ < _ + 1 + _
      omega
    · simp only [signingBytes, parentText, Option.map_some, Option.getD_some, hsplit,
        as_bytes_append, List.append_assoc]
  · -- the first line of the parent goes to the board
    obtain ⟨front, rest, hsplit⟩ := split_of_not_single_line hparent
    refine ⟨{ message with board := message.board ++ "\n" ++ front, parent := some ⟨rest⟩ },
      fun hsame => ?_, ?_⟩
    · refine ne_of_longer ?_ (congrArg MessageBody.board hsame).symm
      simp only [String.length_append]
      show _ < _ + 1 + _
      omega
    · have htext : MessageBody.parentText { message with
          board := message.board ++ "\n" ++ front, parent := some ⟨rest⟩ } = rest := rfl
      simp only [signingBytes, htext, hsplit, as_bytes_append, List.append_assoc]
  · -- the first line of the subject goes to the parent
    obtain ⟨front, rest, hsplit⟩ := split_of_not_single_line hsubject
    refine ⟨{ message with
      parent := some ⟨message.parentText ++ "\n" ++ front⟩, subject := rest },
      fun hsame => ?_, ?_⟩
    · refine ne_of_longer ?_ ((congrArg MessageBody.subject hsame).trans hsplit)
      simp only [String.length_append]
      show _ < _ + 1 + _
      omega
    · simp only [signingBytes, parentText, Option.map_some, Option.getD_some, hpost, hsplit,
        as_bytes_append, List.append_assoc, ne_eq, not_true, decide_false, Bool.false_eq_true,
        if_false, List.nil_append]

/-- A message is valid for every content with the signing bytes of its own. -/
theorem verify_of_same_signing_bytes {blake3 : List UInt8 → Vector UInt8 32}
    {ed25519 : AgentId → List UInt8 → SignatureBytes → Bool} (message : Message τ)
    (h : first.signingBytes hexEncode toRfc3339 = message.body.signingBytes hexEncode toRfc3339)
    (hauthor : first.author = message.body.author) :
    ({ message with body := first } : Message τ).verify hexEncode toRfc3339 blake3 ed25519 =
      message.verify hexEncode toRfc3339 blake3 ed25519 := by
  have hid : first.id hexEncode toRfc3339 blake3 = message.body.id hexEncode toRfc3339 blake3 := by
    unfold id
    rw [h]
  unfold Message.verify
  dsimp only
  rw [hid, h, hauthor]

end MessageBody

end LatentMesh.Bridge
