import Weave.Proofs.Eval.Engine
import Weave.Proofs.Expr.Literals

namespace Weave

open List

/-!
# What a quoted text denotes

A text that has no quotes, no backslashes and no interpolations is written between quotes as it is.
It denotes the bytes of its characters, as a value and as a key, so it denotes itself exactly if all
its characters are ASCII characters.
-/

/-! ## Bytes of characters -/

namespace Text.Escape

variable {text : List Char}

theorem length_byteCharacters_single (char : Char) :
    (byteCharacters [char]).length = char.utf8Size := by
  rw [byteCharacters, flatMap_singleton, length_map, String.length_utf8EncodeChar]

theorem isAscii_iff_utf8Size (char : Char) : isAscii char ↔ char.utf8Size = 1 := by
  rw [Char.utf8Size_eq_one_iff, isAscii, decide_eq_true_eq]
  exact Nat.lt_succ_iff

theorem length_le_byteCharacters (text : List Char) :
    text.length ≤ (byteCharacters text).length := by
  induction text with
  | nil => exact Nat.le_refl 0
  | cons char =>
    have isSome := char.utf8Size_pos
    rw [byteCharacters_cons, length_append, length_byteCharacters_single, length_cons]
    omega

/-- A text has as many bytes as characters only if all of them are ASCII characters. -/
theorem byteCharacters_eq_self_iff :
    byteCharacters text = text ↔ ∀ char ∈ text, isAscii char := by
  constructor
  · intro isSame
    induction text with
    | nil => simp
    | cons char text ih =>
      have isLess := length_le_byteCharacters text
      have sameLength := congrArg length isSame
      rw [byteCharacters_cons, length_append, length_byteCharacters_single,
        length_cons] at sameLength
      have isSingle : char.utf8Size = 1 := by
        have isSome := char.utf8Size_pos
        omega
      have isAscii := (isAscii_iff_utf8Size char).mpr isSingle
      rw [byteCharacters_cons, byteCharacters_ascii (by simpa [Text.isAscii] using isAscii),
        singleton_append, cons.injEq] at isSame
      exact forall_mem_cons.mpr ⟨isAscii, ih isSame.2⟩
  · intro areAscii
    induction text with
    | nil => rfl
    | cons _ _ ih =>
      rw [forall_mem_cons] at areAscii
      rw [byteCharacters_cons, byteCharacters_ascii (by simpa [isAscii] using areAscii.1),
        ih areAscii.2, singleton_append]

/-- An ASCII character among the bytes stands where it stands in the text. -/
theorem byteCharacters_eq_append_cons {ascii : Char} (isAscii : ascii.toNat < 128)
    {front back : List Char} (isSplit : byteCharacters text = front ++ ascii :: back) :
    ∃ before behind,
      text = before ++ ascii :: behind ∧ byteCharacters before = front ∧
        byteCharacters behind = back := by
  induction text generalizing front with
  | nil => simp [byteCharacters] at isSplit
  | cons char text ih =>
    rw [byteCharacters_cons] at isSplit
    rcases append_eq_append_iff.mp isSplit with
      ⟨others, rfl, isRest⟩ | ⟨others, isFirst, isRest⟩
    · obtain ⟨before, behind, rfl, rfl, rfl⟩ := ih isRest
      exact ⟨char :: before, behind, rfl, byteCharacters_cons char before, rfl⟩
    · cases others with
      | nil =>
        obtain ⟨before, behind, rfl, isNothing, rfl⟩ := @ih [] isRest.symm
        refine ⟨char :: before, behind, rfl, ?_, rfl⟩
        rw [byteCharacters_cons, isNothing, isFirst, append_nil, append_nil]
      | cons _ more =>
        obtain ⟨rfl, rfl⟩ := cons.inj isRest
        -- The character itself is the ASCII character, since its bytes hold one.
        have mem : ascii ∈ [char] := by
          by_contra notMember
          exact not_mem_byteCharacters isAscii notMember (isFirst ▸ by simp)
        obtain rfl := mem_singleton.mp mem
        rw [byteCharacters_ascii isAscii] at isFirst
        have sameLength := congrArg length isFirst
        simp only [length_append, length_cons, length_nil] at sameLength
        obtain rfl : front = [] := length_eq_zero_iff.mp (by omega)
        obtain rfl : more = [] := length_eq_zero_iff.mp (by omega)
        exact ⟨[], text, rfl, rfl, rfl⟩

/-- The bytes of a text hold no interpolation that the text does not have. -/
theorem not_isInfix_byteCharacters (noMark : ¬ interpolationMark <:+: text) :
    ¬ interpolationMark <:+: byteCharacters text := by
  rintro ⟨_, back, isSplit⟩
  rw [append_assoc] at isSplit
  obtain ⟨before, behind, rfl, _, isBehind⟩ :=
    byteCharacters_eq_append_cons (by decide) isSplit.symm
  obtain ⟨between, rest, rfl, isNothing, _⟩ :=
    @byteCharacters_eq_append_cons behind '(' (by decide) [] back isBehind
  have isShort := length_le_byteCharacters between
  rw [isNothing] at isShort
  obtain rfl := length_eq_zero_iff.mp (Nat.le_zero.mp isShort)
  exact noMark ⟨before, rest, by simp [interpolationMark]⟩

/-- Without quotes and backslashes, a text stands between quotes as it is. -/
theorem toList_quote_of_plain (noQuote : '"' ∉ text) (noEscape : '\\' ∉ text) :
    (quote (String.ofList text)).toList = '"' :: (text ++ ['"']) := by
  have isPlain : escaped text = text := by
    induction text with
    | nil => rfl
    | cons _ _ ih =>
      rw [mem_cons, not_or] at noQuote noEscape
      rw [escaped_cons, ih noQuote.2 noEscape.2,
        if_neg (not_or.mpr ⟨Ne.symm noEscape.1, Ne.symm noQuote.1⟩), singleton_append]
  rw [toList_quote, String.toList_ofList, isPlain]

end Text.Escape

open Text.Escape (byteCharacters)

/-! ## Quoted keys -/

/-- A quoted text and an expression behind a colon make up an object with that field. -/
theorem Token.Makes.quotedField {lexeme : List Char} {key : String}
    {value : Expr} {opening colon closing : Token} {literal inner : List Token}
    (opens : opening.kind = .openBrace) (isLiteral : AreOne .string lexeme literal)
    (isText : stringLiteral Expr.parse (String.ofList lexeme) = .ok (.text key))
    (isColon : colon.kind = .colon) (makes : Makes value inner)
    (closes : closing.kind = .closeBrace) :
    Makes (.object [(.text key, value)])
      (opening :: (literal ++ colon :: (inner ++ [closing]))) := by
  obtain ⟨pos, rfl⟩ := isLiteral
  have isKey (next : Token) :
      Derives Expr.parse none .key [⟨.string, String.ofList lexeme, pos⟩] (.text key) next :=
    .quoted rfl isText
  have separated : Separated (fun (_ : Unit) part => Place.field.Makes Expr.placelessField
      (.text key, value) Bracket.curly.Follows part) [()] _ :=
    .single (makes.field isKey isColon)
  have isObject := object_of_fields opens closes separated fun _ _ _ isField => isField
  simpa using isObject

namespace Expr

/-- The text that a quoted text denotes. -/
def denotedText (text : List Char) : String := String.ofList (byteCharacters text)

section Quoted

open Text.Escape (quote)

theorem cutAt?_denotedText {text : List Char} (noMark : ¬ interpolationMark <:+: text) :
    Text.cutAt? interpolationMark (denotedText text).toList = none := by
  rw [denotedText, String.toList_ofList, Text.cutAt?_eq_none_iff (by simp [interpolationMark])]
  exact Text.Escape.not_isInfix_byteCharacters noMark

variable {text : String} (noMark : ¬ interpolationMark <:+: text.toList)

include noMark

theorem stringLiteral_quote : stringLiteral parse (String.ofList (quote text).toList) =
      .ok (.text (denotedText text.toList)) := by
  have isPlain : Text.contains (denotedText text.toList).toList interpolationMark = false := by
    rw [Text.contains, cutAt?_denotedText noMark]
    rfl
  rw [stringLiteral, String.ofList_toList, Text.Escape.unquote_quote]
  exact if_neg (Bool.eq_false_iff.mp isPlain)

theorem parse_quote : parse (quote text).toList = .ok (.text (denotedText text.toList)) := by
  have hasText : (Expr.text (denotedText text.toList)).HasText (quote text).toList :=
    fun rest _ => (Token.Fronts.quoted text).mono fun _ isOne =>
      .string isOne (stringLiteral_quote noMark)
  obtain ⟨_, isRead, viewed⟩ := hasText.parse_eq
  rw [isRead, eq_text_of_placeless viewed]

theorem parse_quoted_key {value : Expr} {written : List Char} (hasText : value.HasText written) :
    ∃ found,
      parse (['{'] ++ ((quote text).toList ++ ([':'] ++ (written ++ ['}'])))) =
          .ok (.object [(.text (denotedText text.toList), found)]) ∧
        found.placeless = value := by
  have opening (rest : List Char) : Token.Fronts (Token.AreOne .openBrace ['{']) ['{'] rest :=
    .delimiter (by simp)
  have colon (rest : List Char) : Token.Fronts (Token.AreOne .colon [':']) [':'] rest :=
    .delimiter (by simp)
  have closing : Token.Fronts (Token.AreOne .closeBrace ['}']) ['}'] [] := .delimiter (by simp)
  have valued : Token.Fronts (Token.Makes value) written (['}'] ++ []) :=
    hasText _ (by rintro _ ⟨⟩; decide)
  have whole :
      Token.Fronts (Token.Makes (.object [(.text (denotedText text.toList), value)]))
        (['{'] ++ ((quote text).toList ++ ([':'] ++ (written ++ ['}'])))) [] := by
    refine ((opening _).append ((Token.Fronts.quoted text).append
      ((colon _).append (valued.append closing)))).mono ?_
    rintro _ ⟨_, _, ⟨_, rfl⟩, ⟨_, _, isOne, ⟨_, _, ⟨_, rfl⟩, ⟨_, _, makes, ⟨_, rfl⟩, rfl⟩,
      rfl⟩, rfl⟩, rfl⟩
    exact .quotedField rfl isOne (stringLiteral_quote noMark) rfl makes rfl
  obtain ⟨_, isRead, viewed⟩ := parse_of_makes whole
  obtain ⟨_, rfl, areFields⟩ := eq_object_of_placeless viewed
  obtain ⟨⟨key, found⟩, rfl, isField⟩ := map_eq_singleton_iff.mp areFields
  obtain ⟨isKey, isValue⟩ := Prod.mk.inj isField
  obtain rfl : key = .text (denotedText text.toList) := eq_text_of_placeless isKey
  exact ⟨found, isRead, isValue⟩

end Quoted

theorem eval_field {key : String} (isPlain : Text.cutAt? interpolationMark key.toList = none)
    (setting : Setting) (depth : Nat) (ctx : Context) (value : Expr) :
    (Engine.upTo setting (depth + 2)).eval ctx (.object [(.text key, value)]) =
      (do
        let found ← (Engine.upTo setting (depth + 1)).eval ctx value
        return .record [(.text key, found)]) := by
  have keyed :
      (Engine.upTo setting (depth + 1)).eval ctx (.text key) = pure (.text key) :=
    Eval.step_text_of_plain isPlain _ ctx
  change Eval.fields _ _ _ _ >>= _ = _
  rw [Eval.fields, keyed]
  simp only [bind_assoc]
  rfl

/-- A text without quotes, backslashes and interpolations that is put between quotes denotes the
bytes of its characters, as a value and as the key of a field.  These are the text itself if and
only if all its characters are ASCII characters. -/
theorem quoted_denotes_bytes {text : List Char} (noQuote : '"' ∉ text) (noEscape : '\\' ∉ text)
    (noMark : ¬ interpolationMark <:+: text) :
    parse ('"' :: (text ++ ['"'])) = .ok (.text (denotedText text)) ∧
      (∀ setting context,
        (Expr.text (denotedText text)).eval setting context = pure (.text (denotedText text))) ∧
      (∀ value written, HasText value written →
        ∃ found,
          parse (['{'] ++ ('"' :: (text ++ ['"']) ++ ([':'] ++ (written ++ ['}'])))) =
              .ok (.object [(.text (denotedText text), found)]) ∧
            found.placeless = value ∧
            ∀ setting depth ctx,
              (Engine.upTo setting (depth + 2)).eval ctx
                  (.object [(.text (denotedText text), found)]) =
                (do
                  let result ← (Engine.upTo setting (depth + 1)).eval ctx found
                  return .record [(.text (denotedText text), result)])) ∧
      ((denotedText text).toList = text ↔
        ∀ character ∈ text, Text.isAscii character = true) := by
  have isPlain := cutAt?_denotedText noMark
  rw [← Text.Escape.toList_quote_of_plain noQuote noEscape]
  rw [← String.toList_ofList (l := text)] at noMark
  refine ⟨by simpa using parse_quote noMark, fun setting ctx => ?_,
    fun value written hasText => ?_, ?_⟩
  · exact Eval.step_text_of_plain isPlain _ ctx
  · obtain ⟨found, isRead, viewed⟩ := parse_quoted_key noMark hasText
    rw [String.toList_ofList] at isRead
    exact ⟨found, isRead, viewed, fun setting depth ctx =>
      eval_field isPlain setting depth ctx found⟩
  · rw [denotedText, String.toList_ofList]
    exact Text.Escape.byteCharacters_eq_self_iff

/-- A letter with an accent is read as two characters; the dollar sign in front of it is kept. -/
theorem quoted_denotes_bytes_accent : parse "\"$é\"".toList = .ok (.text "$Ã©") ∧
      (∀ setting ctx, (Expr.text "$Ã©").eval setting ctx = pure (.text "$Ã©")) ∧
      denotedText "$é".toList = "$Ã©" := by
  have isBytes : denotedText "$é".toList = "$Ã©" := by decide
  obtain ⟨isRead, evals, _⟩ :=
    @quoted_denotes_bytes "$é".toList (by decide) (by decide)
      ((Text.cutAt?_eq_none_iff (by decide) _).mp (by decide))
  rw [isBytes] at isRead evals
  exact ⟨isRead, evals, isBytes⟩

/-- A text of ASCII characters without interpolations, written as a literal, is scanned into one
token and read as that text again. -/
theorem quote_is_read_back {text : String}
    (areAscii : ∀ character ∈ text.toList, Text.isAscii character)
    (noMark : ¬ interpolationMark <:+: text.toList) :
    (∃ position, Token.scan (Text.Escape.quote text).toList =
        .ok [⟨.string, Text.Escape.quote text, .start⟩, ⟨.finish, "", position⟩]) ∧
      parse (Text.Escape.quote text).toList = .ok (.text text) := by
  constructor
  · have scanned := @Token.scanAt_lexeme [] _ _
      (.string (.inl rfl) (Token.closeString_escaped text.toList)) .start
    rw [append_nil, ← Text.Escape.toList_quote, String.ofList_toList] at scanned
    exact ⟨_, scanned⟩
  · rw [parse_quote noMark, denotedText, Text.Escape.byteCharacters_eq_self_iff.mpr areAscii,
      String.ofList_toList]

/-- Quotes, backslashes and what looks like an escape are read back. -/
theorem quote_is_read_back_escapes :
    Text.Escape.quote "\\n\"$\n" = "\"\\\\n\\\"$\n\"" ∧
      parse (Text.Escape.quote "\\n\"$\n").toList = .ok (.text "\\n\"$\n") :=
  ⟨by decide, (quote_is_read_back (all_eq_true.mp rfl)
    ((Text.cutAt?_eq_none_iff (by decide) _).mp (by decide))).2⟩

end Expr

end Weave
