import LatentMesh.AirCore.Semantic
import LatentMesh.Bridge.Wire
import LatentMesh.Lib.Digits
import LatentMesh.Lib.Rounding

/-!
# Bulletins

The text of `bridge.rs` for a state delta. Every line of it can be read back: two deltas have the
same text just when they agree on everything but the contents of their residuals
(`render_delta_text_eq_iff`).
-/

namespace LatentMesh.Bridge

open LatentMesh.Lib LatentMesh.AirCore

/-! ## Rendering -/

/-- The format `{:.6}` of a number. -/
def fixed6 (x : ℚ) : String :=
  let millionths := (roundEven (|x| * 1000000)).toNat
  (if x < 0 then "-" else "") ++
    (toString (millionths / 1000000) ++ ("." ++ padded 6 (millionths % 1000000)))

/-- `render_symbol_value`. -/
def renderSymbolValue (hexEncode : List UInt8 → String) : SymbolValue → String
  | .bool value => "bool:" ++ (if value then "true" else "false")
  | .i64 value => "i64:" ++ toString value.toInt
  | .u64 value => "u64:" ++ toString value.toNat
  | .q16_16 value => "q16.16:" ++ fixed6 (value.toInt / 65536)
  | .bytes value => "bytes:" ++ hexEncode value

/-- The line of an update. -/
def renderUpdate (hexEncode : List UInt8 → String) : SymbolUpdate → String
  | .set fieldId value =>
      "  set field=" ++ (toString fieldId.toNat ++ (" value=" ++ renderSymbolValue hexEncode value))
  | .delete fieldId => "  delete field=" ++ toString fieldId.toNat

/-- The line of the residuals. -/
def renderResiduals (count : Nat) : String :=
  "  " ++ (toString count ++
    " residual slot(s) present (noncritical, not represented in this bulletin)")

/-- `render_delta_text`. -/
def renderDeltaText (hexEncode : List UInt8 → String) (delta : SemanticDelta) : String :=
  let text := "LatentMesh Air state delta\nsource_id=" ++ toString delta.sourceId.toNat ++
    "\nepoch=" ++ toString delta.epoch.toNat ++ "\nmessage_id=" ++ toString delta.messageId.toNat ++
    "\nbase_hash=" ++ hexEncode delta.baseHash.toList ++
    "\nresult_hash=" ++ hexEncode delta.resultHash.toList ++ "\n"
  let text := delta.updates.foldl
    (fun text update => text ++ (renderUpdate hexEncode update ++ "\n")) text
  if delta.residuals.isEmpty then text
  else text ++ (renderResiduals delta.residuals.length ++ "\n")

/-! ## Fixed-point numbers -/

/-- The text of a number with six decimals: a sign below zero, the integer part, a point and six
digits. -/
theorem fixed6_to_list (x : ℚ) :
    ∃ first rest, (fixed6 x).toList = (if x < 0 then ['-'] else []) ++ first :: rest ∧
      first.isDigit = true ∧
      (first :: rest) = (toString ((roundEven (|x| * 1000000)).toNat / 1000000)).toList ++
        '.' :: (padded 6 ((roundEven (|x| * 1000000)).toNat % 1000000)).toList := by
  obtain ⟨first, rest, hwhole, hdigit⟩ :=
    decimal_eq_cons ((roundEven (|x| * 1000000)).toNat / 1000000)
  refine ⟨first, rest ++ '.' :: (padded 6 ((roundEven (|x| * 1000000)).toNat % 1000000)).toList,
    ?_, hdigit, ?_⟩
  · unfold fixed6
    dsimp only
    rw [String.toList_append, String.toList_append, hwhole, String.toList_append]
    split <;> rfl
  · rw [hwhole]
    rfl

/-- The sign and the millionths of a number can be read back. -/
theorem fixed6_eq {x y : ℚ} (h : fixed6 x = fixed6 y) :
    (x < 0 ↔ y < 0) ∧
      (roundEven (|x| * 1000000)).toNat = (roundEven (|y| * 1000000)).toNat := by
  obtain ⟨first, rest, hx, hfirst, hsplit⟩ := fixed6_to_list x
  obtain ⟨other, otherRest, hy, hother, hotherSplit⟩ := fixed6_to_list y
  rw [h, hy] at hx
  have hminus : ∀ {c : Char}, c.isDigit = true → c ≠ '-' := by
    rintro c hc rfl
    exact absurd hc (by decide)
  -- a sign stands in the place of the first digit
  have hsign : (x < 0 ↔ y < 0) ∧ first :: rest = other :: otherRest := by
    by_cases hxneg : x < 0 <;> by_cases hyneg : y < 0
    · rw [if_pos hxneg, if_pos hyneg] at hx
      exact ⟨iff_of_true hxneg hyneg, (List.cons.inj hx).2.symm⟩
    · rw [if_pos hxneg, if_neg hyneg] at hx
      exact absurd (List.cons.inj hx).1 (hminus hother)
    · rw [if_neg hxneg, if_pos hyneg] at hx
      exact absurd (List.cons.inj hx).1.symm (hminus hfirst)
    · rw [if_neg hxneg, if_neg hyneg] at hx
      exact ⟨iff_of_false hxneg hyneg, hx.symm⟩
  refine ⟨hsign.1, ?_⟩
  have hpoint : ∀ n : Nat, '.' ∉ (toString n).toList := by
    intro n hmem
    exact absurd (is_digit_of_mem_decimal hmem) (by decide)
  rw [hsplit, hotherSplit] at hsign
  obtain ⟨hwhole, hpart⟩ := field_inj (hpoint _) (hpoint _) hsign.2
  have hdiv := decimal_inj (String.toList_inj.mp hwhole)
  have hmod := padded_inj (String.toList_inj.mp hpart)
  omega

/-- Two fixed-point numbers with 16 bits behind the point differ by 15 millionths at least. -/
theorem fixed6_inj {value other : Int}
    (h : fixed6 ((value : ℚ) / 65536) = fixed6 ((other : ℚ) / 65536)) : value = other := by
  obtain ⟨hsign, hmillionths⟩ := fixed6_eq h
  have hneg : ∀ n : Int, ((n : ℚ) / 65536 < 0 ↔ n < 0) := by
    intro n
    rw [div_lt_iff₀ (by norm_num), zero_mul]
    exact Int.cast_lt_zero
  have hscaled : ∀ n : Int, ∃ m : Int, 0 ≤ m ∧ m.toNat =
      (roundEven (|(n : ℚ) / 65536| * 1000000)).toNat ∧
        |(m : ℚ) - |(n : ℚ)| * (15625 / 1024)| ≤ 1 / 2 := by
    intro n
    have hx : |(n : ℚ) / 65536| * 1000000 = |(n : ℚ)| * (15625 / 1024) := by
      rw [abs_div, abs_of_pos (by norm_num : (0 : ℚ) < 65536)]
      ring
    refine ⟨_, round_even_nonneg (by positivity), rfl, ?_⟩
    have hround := abs_round_even_sub_le (|(n : ℚ) / 65536| * 1000000)
    rwa [hx] at hround ⊢
  obtain ⟨m, hm, hmeq, herror⟩ := hscaled value
  obtain ⟨m', hm', hmeq', herror'⟩ := hscaled other
  have hsame : m = m' := by omega
  subst hsame
  -- each magnitude is within half of the same number of millionths
  have habs : |value| = |other| := by
    refine int_eq_of_abs_sub_lt ?_
    obtain ⟨hbelow, habove⟩ := abs_le.mp herror
    obtain ⟨hbelow', habove'⟩ := abs_le.mp herror'
    rw [Int.cast_abs, Int.cast_abs, abs_lt]
    constructor <;> linarith
  rw [hneg, hneg] at hsign
  rcases abs_eq_abs.mp habs with heq | heq
  · exact heq
  · omega

/-! ## Lines -/

variable {hexEncode : List UInt8 → String} {first second : SemanticDelta}

/-- A text of two texts without line breaks has none. -/
theorem single_line_append {text other : String} (h : SingleLine text) (h' : SingleLine other) :
    SingleLine (text ++ other) := by
  unfold SingleLine
  rw [String.toList_append, List.mem_append, not_or]
  exact ⟨h, h'⟩

/-- The text of a number has no line break. -/
theorem fixed6_single_line (x : ℚ) : SingleLine (fixed6 x) := by
  unfold fixed6
  dsimp only
  refine single_line_append ?_ (single_line_append (decimal_single_line _)
    (single_line_append (by decide) ?_))
  · split <;> decide
  · exact fun hmem => absurd (is_digit_of_mem_padded hmem) (by decide)

/-- The text of a value has no line break. -/
theorem symbol_value_single_line (hhex : HexEncodes hexEncode) (value : SymbolValue) :
    SingleLine (renderSymbolValue hexEncode value) := by
  cases value with
  | bool value =>
      refine single_line_append (by decide) ?_
      cases value <;> decide
  | i64 value =>
      refine single_line_append (by decide) fun hmem => ?_
      rcases mem_int_decimal hmem with hsign | hdigit
      · exact absurd hsign (by decide)
      · exact absurd hdigit (by decide)
  | u64 value => exact single_line_append (by decide) (decimal_single_line _)
  | q16_16 value => exact single_line_append (by decide) (fixed6_single_line _)
  | bytes value => exact single_line_append (by decide) (hhex.single_line _)

/-- The text of an update has no line break. -/
theorem update_single_line (hhex : HexEncodes hexEncode) (update : SymbolUpdate) :
    SingleLine (renderUpdate hexEncode update) := by
  cases update with
  | set fieldId value =>
      exact single_line_append (by decide) (single_line_append (decimal_single_line _)
        (single_line_append (by decide) (symbol_value_single_line hhex value)))
  | delete fieldId => exact single_line_append (by decide) (decimal_single_line _)

/-- The text of the residuals has no line break. -/
theorem residuals_single_line (count : Nat) : SingleLine (renderResiduals count) :=
  single_line_append (by decide) (single_line_append (decimal_single_line _) (by decide))

/-- The lines that every delta has. -/
def headLines (hexEncode : List UInt8 → String) (delta : SemanticDelta) : List String :=
  ["LatentMesh Air state delta", "source_id=" ++ toString delta.sourceId.toNat,
    "epoch=" ++ toString delta.epoch.toNat, "message_id=" ++ toString delta.messageId.toNat,
    "base_hash=" ++ hexEncode delta.baseHash.toList,
    "result_hash=" ++ hexEncode delta.resultHash.toList]

/-- The line of the residuals, if there are any. -/
def residualLines (delta : SemanticDelta) : List String :=
  if delta.residuals.isEmpty then [] else [renderResiduals delta.residuals.length]

/-- The lines of a rendered delta. -/
def lines (hexEncode : List UInt8 → String) (delta : SemanticDelta) : List String :=
  headLines hexEncode delta ++ (delta.updates.map (renderUpdate hexEncode) ++ residualLines delta)

/-- No line of a rendered delta has a line break. -/
theorem lines_single_line (hhex : HexEncodes hexEncode) (delta : SemanticDelta) :
    ∀ line ∈ (lines hexEncode delta).map String.toList, '\n' ∉ line := by
  refine List.forall_mem_map.mpr ?_
  simp only [lines, headLines, List.forall_mem_append, List.forall_mem_cons]
  refine ⟨⟨by decide, ?_, ?_, ?_, ?_, ?_, fun _ hmem => absurd hmem List.not_mem_nil⟩, ?_, ?_⟩
  · exact single_line_append (by decide) (decimal_single_line _)
  · exact single_line_append (by decide) (decimal_single_line _)
  · exact single_line_append (by decide) (decimal_single_line _)
  · exact single_line_append (by decide) (hhex.single_line _)
  · exact single_line_append (by decide) (hhex.single_line _)
  · exact List.forall_mem_map.mpr fun update _ => update_single_line hhex update
  · unfold residualLines
    split
    · exact fun _ hmem => absurd hmem List.not_mem_nil
    · exact List.forall_mem_singleton.mpr (residuals_single_line _)

/-- The text is its lines, with a line break behind each. -/
theorem render_delta_text_to_list (delta : SemanticDelta) :
    (renderDeltaText hexEncode delta).toList =
      terminated '\n' ((lines hexEncode delta).map String.toList) := by
  have hupdates : ∀ (updates : List SymbolUpdate) (text : String),
      (updates.foldl
          (fun text update => text ++ (renderUpdate hexEncode update ++ "\n")) text).toList =
        text.toList ++
          terminated '\n' ((updates.map (renderUpdate hexEncode)).map String.toList) := by
    intro updates
    induction updates with
    | nil => exact fun text => (List.append_nil _).symm
    | cons update updates ih =>
        intro text
        rw [List.foldl_cons, ih, String.toList_append, String.toList_append, List.append_assoc,
          List.append_assoc, List.map_cons, List.map_cons, ← List.append_nil (terminated _ _),
          ← List.append_nil (terminated _ (_ :: _)), terminated_cons]
        rfl
  have happend : ∀ front rest : List (List Char),
      terminated '\n' (front ++ rest) = terminated '\n' front ++ terminated '\n' rest :=
    fun front rest => List.flatMap_append
  have hhead : ("LatentMesh Air state delta\nsource_id=" ++ toString delta.sourceId.toNat ++
      "\nepoch=" ++ toString delta.epoch.toNat ++ "\nmessage_id=" ++
      toString delta.messageId.toNat ++ "\nbase_hash=" ++ hexEncode delta.baseHash.toList ++
      "\nresult_hash=" ++ hexEncode delta.resultHash.toList ++ "\n").toList =
      terminated '\n' ((headLines hexEncode delta).map String.toList) := by
    simp [headLines, terminated, String.toList_append, List.append_assoc]
  have hlast : (renderResiduals delta.residuals.length ++ "\n").toList =
      terminated '\n' [(renderResiduals delta.residuals.length).toList] :=
    String.toList_append.trans (List.append_nil _).symm
  unfold renderDeltaText lines residualLines
  dsimp only
  rw [List.map_append, List.map_append, happend, happend, ← hhead]
  cases delta.residuals.isEmpty with
  | true =>
      rw [if_pos rfl, if_pos rfl, hupdates]
      exact congrArg _ (List.append_nil _).symm
  | false =>
      rw [if_neg (by decide), if_neg (by decide), String.toList_append, hupdates,
        List.append_assoc, hlast]
      rfl

/-! ## What a text says -/

/-- The name of a type, and the text of a value. -/
def typeName : SymbolValue → String
  | .bool _ => "bool"
  | .i64 _ => "i64"
  | .u64 _ => "u64"
  | .q16_16 _ => "q16.16"
  | .bytes _ => "bytes"

/-- The text of a value behind its type. -/
def valueText (hexEncode : List UInt8 → String) : SymbolValue → String
  | .bool value => if value then "true" else "false"
  | .i64 value => toString value.toInt
  | .u64 value => toString value.toNat
  | .q16_16 value => fixed6 (value.toInt / 65536)
  | .bytes value => hexEncode value

/-- The text of a value is its type, a colon and its value. -/
theorem symbol_value_to_list (value : SymbolValue) :
    (renderSymbolValue hexEncode value).toList =
      (typeName value).toList ++ ':' :: (valueText hexEncode value).toList := by
  cases value <;> simp [renderSymbolValue, typeName, valueText]

/-- The text of a value tells the value. -/
theorem symbol_value_inj (hhex : HexEncodes hexEncode) {value other : SymbolValue}
    (h : renderSymbolValue hexEncode value = renderSymbolValue hexEncode other) :
    value = other := by
  have hcolon : ∀ value : SymbolValue, ':' ∉ (typeName value).toList := by
    intro value
    cases value <;> simp [typeName]
  have hlist := congrArg String.toList h
  rw [symbol_value_to_list, symbol_value_to_list] at hlist
  obtain ⟨htype, htext⟩ := field_inj (hcolon value) (hcolon other) hlist
  have hname : typeName value = typeName other := String.toList_inj.mp htype
  replace htext : valueText hexEncode value = valueText hexEncode other :=
    String.toList_inj.mp htext
  cases value <;> cases other <;> try (simp [typeName] at hname; done)
  case bool.bool value other =>
    cases value <;> cases other <;> first | rfl | exact absurd htext (by simp [valueText])
  case i64.i64 value other => rw [Int64.toInt.inj (int_decimal_inj htext)]
  case u64.u64 value other => rw [UInt64.toNat_inj.mp (decimal_inj htext)]
  case q16_16.q16_16 value other => rw [Int32.toInt.inj (fixed6_inj htext)]
  case bytes.bytes value other => rw [hhex.injective htext]

/-- The text of an update tells the update. -/
theorem update_inj (hhex : HexEncodes hexEncode) : Function.Injective (renderUpdate hexEncode) := by
  intro update other h
  have hspace : ∀ n : Nat, ' ' ∉ (toString n).toList :=
    fun n hmem => absurd (is_digit_of_mem_decimal hmem) (by decide)
  cases update with
  | set fieldId value =>
      cases other with
      | set otherId otherValue =>
          have hlist := congrArg String.toList ((String.append_right_inj _).mp h)
          rw [String.toList_append, String.toList_append, String.toList_append,
            String.toList_append] at hlist
          obtain ⟨hid, hrest⟩ := field_inj (hspace _) (hspace _) hlist
          have hvalue :
              renderSymbolValue hexEncode value = renderSymbolValue hexEncode otherValue :=
            String.toList_inj.mp (List.append_cancel_left hrest)
          rw [UInt16.toNat_inj.mp (decimal_inj (String.toList_inj.mp hid)),
            symbol_value_inj hhex hvalue]
      | delete otherId =>
          -- the third characters of the two words differ
          have hthird := congrArg (fun text => text.toList[2]?) h
          exact absurd hthird (by simp [renderUpdate])
  | delete fieldId =>
      cases other with
      | set otherId otherValue =>
          have hthird := congrArg (fun text => text.toList[2]?) h
          exact absurd hthird (by simp [renderUpdate])
      | delete otherId =>
          have hid := decimal_inj ((String.append_right_inj _).mp h)
          rw [UInt16.toNat_inj.mp hid]

/-- No update has the line of residuals. -/
theorem update_ne_residuals (update : SymbolUpdate) (count : Nat) :
    renderUpdate hexEncode update ≠ renderResiduals count := by
  intro h
  obtain ⟨first, rest, hcount, hdigit⟩ := decimal_eq_cons count
  have hthird := congrArg (fun text => text.toList[2]?) h
  have hfirst : (renderResiduals count).toList[2]? = some first := by
    rw [renderResiduals, String.toList_append, String.toList_append, hcount]
    rfl
  rw [hfirst] at hthird
  cases update with
  | set fieldId value =>
      rw [renderUpdate, String.toList_append] at hthird
      obtain rfl : 's' = first := Option.some.inj hthird
      exact absurd hdigit (by decide)
  | delete fieldId =>
      rw [renderUpdate, String.toList_append] at hthird
      obtain rfl : 'd' = first := Option.some.inj hthird
      exact absurd hdigit (by decide)

/-- The text of the residuals tells their number. -/
theorem residuals_inj {count other : Nat} (h : renderResiduals count = renderResiduals other) :
    count = other := by
  have hspace : ∀ n : Nat, ' ' ∉ (toString n).toList :=
    fun n hmem => absurd (is_digit_of_mem_decimal hmem) (by decide)
  have hlist := congrArg String.toList ((String.append_right_inj _).mp h)
  rw [String.toList_append, String.toList_append] at hlist
  exact decimal_inj (String.toList_inj.mp (field_inj (hspace _) (hspace _) hlist).1)

/-- The lines of the residuals tell their number. -/
theorem residual_lines_inj (h : residualLines first = residualLines second) :
    first.residuals.length = second.residuals.length := by
  unfold residualLines at h
  split at h <;> split at h
  · rename_i hfirst hsecond
    rw [List.isEmpty_iff.mp hfirst, List.isEmpty_iff.mp hsecond]
  · cases h
  · cases h
  · exact residuals_inj (List.cons.inj h).1

/-- The first lines tell the fields of the delta. -/
theorem head_lines_inj (hhex : HexEncodes hexEncode)
    (h : headLines hexEncode first = headLines hexEncode second) :
    first.sourceId = second.sourceId ∧ first.epoch = second.epoch ∧
      first.messageId = second.messageId ∧ first.baseHash = second.baseHash ∧
        first.resultHash = second.resultHash := by
  simp only [headLines, List.cons.injEq, String.append_right_inj, true_and, and_true] at h
  obtain ⟨hsource, hepoch, hmessage, hbase, hresult⟩ := h
  exact ⟨UInt32.toNat_inj.mp (decimal_inj hsource), UInt32.toNat_inj.mp (decimal_inj hepoch),
    UInt32.toNat_inj.mp (decimal_inj hmessage), Vector.toList_inj.mp (hhex.injective hbase),
    Vector.toList_inj.mp (hhex.injective hresult)⟩

/-- Two deltas have the same text exactly when they agree on everything but the contents of their
residuals. -/
theorem render_delta_text_eq_iff (hexEncode : List UInt8 → String) (hhex : HexEncodes hexEncode)
    (first second : SemanticDelta) :
    renderDeltaText hexEncode first = renderDeltaText hexEncode second ↔
      first.sourceId = second.sourceId ∧ first.epoch = second.epoch ∧
        first.messageId = second.messageId ∧ first.baseHash = second.baseHash ∧
        first.resultHash = second.resultHash ∧ first.updates = second.updates ∧
        first.residuals.length = second.residuals.length := by
  constructor
  · intro h
    have hlist := congrArg String.toList h
    rw [render_delta_text_to_list, render_delta_text_to_list] at hlist
    have hlines : lines hexEncode first = lines hexEncode second :=
      List.map_injective_iff.mpr (fun _ _ => String.toList_inj.mp)
        (terminated_injective (lines_single_line hhex first) (lines_single_line hhex second) hlist)
    -- the heads have as many lines, and the updates end where the residuals begin
    obtain ⟨hhead, hrest⟩ := List.append_inj hlines rfl
    have hresidual : ∀ delta : SemanticDelta, ∀ line ∈ residualLines delta,
        ∀ update, renderUpdate hexEncode update ≠ line := by
      intro delta line hmem update
      unfold residualLines at hmem
      split at hmem
      · exact absurd hmem List.not_mem_nil
      · rw [List.mem_singleton.mp hmem]
        exact update_ne_residuals update _
    obtain ⟨hupdates, htail⟩ :=
      map_append_inj (update_inj hhex) (hresidual first) (hresidual second) hrest
    obtain ⟨hsource, hepoch, hmessage, hbase, hresult⟩ := head_lines_inj hhex hhead
    exact ⟨hsource, hepoch, hmessage, hbase, hresult, hupdates, residual_lines_inj htail⟩
  · rintro ⟨hsource, hepoch, hmessage, hbase, hresult, hupdates, hresiduals⟩
    have hempty : first.residuals.isEmpty = second.residuals.isEmpty := by
      rw [Bool.eq_iff_iff, List.isEmpty_iff_length_eq_zero, List.isEmpty_iff_length_eq_zero,
        hresiduals]
    unfold renderDeltaText
    rw [hsource, hepoch, hmessage, hbase, hresult, hupdates, hresiduals, hempty]

/-- A delta that sets one field to a byte. -/
def byteDelta (value : UInt8) : SemanticDelta where
  sourceId := 7
  epoch := 3
  messageId := 99
  baseHash := Vector.replicate 16 0
  resultHash := Vector.replicate 16 1
  updates := [.set 1 (.bytes [value])]
  residuals := []

/-- The theorem at two deltas that differ in one byte. -/
theorem render_delta_text_eq_iff_byte :
    renderDeltaText hexText (byteDelta 1) ≠ renderDeltaText hexText (byteDelta 2) := by
  intro h
  obtain ⟨-, -, -, -, -, hupdates, -⟩ :=
    (render_delta_text_eq_iff hexText hex_text_encodes (byteDelta 1) (byteDelta 2)).mp h
  exact absurd hupdates (by decide)

end LatentMesh.Bridge
