import Weave.Proofs.Expr.Pasted

namespace Weave

open List

/-!
# Literals that are put together

Words, quoted texts, lists and objects that are written out are read as what they were written for.
A quoted text stands for the bytes of its characters.
-/

variable {text rest : List Char} {name : String}

/-! ## Quoted texts -/

namespace Text.Escape

/-- What stands between the quotes of a text. -/
def escaped (text : List Char) : List Char :=
  text.flatMap fun character =>
    if character = '\\' || character = '"' then ['\\', character] else [character]

theorem toList_quote (text : String) :
    (quote text).toList = '"' :: (escaped text.toList ++ ['"']) := by
  simp [quote, escaped]

theorem escaped_cons (char : Char) (text : List Char) : escaped (char :: text) =
      (if char = '\\' ∨ char = '"' then ['\\', char] else [char]) ++ escaped text := by
  simp [escaped]

/-- Among the bytes of a text stands no ASCII character that the text does not have. -/
theorem not_mem_byteCharacters {ascii : Char} (isAscii : ascii.toNat < 128)
    (notMember : ascii ∉ text) :
    ascii ∉ byteCharacters text := by
  intro mem
  obtain ⟨char, inText, isFound⟩ := mem_flatMap.mp mem
  by_cases isSmall : char.toNat < 128
  · have same := byteCharacters_ascii isSmall
    simp only [byteCharacters, flatMap_cons, flatMap_nil, append_nil] at same
    rw [same, mem_singleton] at isFound
    exact notMember (isFound ▸ inText)
  · exact Nat.not_le_of_lt isAscii (le_toNat_of_mem_bytes isFound isSmall)

/-- Outside of escapes, characters other than the backslash stand for themselves. -/
theorem resolve_append (noEscape : '\\' ∉ front) (rest : List Char) :
    resolve .nothing (front ++ rest) = (resolve .nothing rest).map (front ++ ·) := by
  induction front with
  | nil => simp
  | cons char _ ih =>
    rw [mem_cons, not_or] at noEscape
    have isPlain : step .nothing char = some ([char], .nothing) := by
      simp [step, plain, Ne.symm noEscape.1]
    rw [cons_append, resolve, isPlain]
    simp only [ih noEscape.2, Option.map_map]
    rfl

/-- What is escaped between quotes stands for the bytes of the text. -/
theorem decode_escaped (text : List Char) : decode (escaped text) = some (byteCharacters text) := by
  induction text with
  | nil => rfl
  | cons char _ ih =>
    unfold decode at ih ⊢
    rw [escaped_cons, byteCharacters_append, byteCharacters_cons]
    split
    · rename_i isEscaped
      -- The backslash gives way to the character behind it.
      have isAscii : char.toNat < 128 := by
        rcases isEscaped with rfl | rfl <;> decide
      have bytes : byteCharacters ['\\', char] = ['\\', char] := by
        rw [← singleton_append, byteCharacters_append, byteCharacters_ascii (by decide),
          byteCharacters_ascii isAscii]
      have isControl : control? char = some char := by
        rcases isEscaped with rfl | rfl <;> rfl
      rw [bytes, byteCharacters_ascii isAscii]
      have opens : step .nothing '\\' = some ([], .backslash) := rfl
      have closes : step .backslash char = some ([char], .nothing) := by
        simp [step, isControl]
      rw [cons_append, singleton_append, resolve, opens]
      simp only [resolve, closes, ih]
      simp
    · rename_i notEscaped
      have noEscape : '\\' ∉ byteCharacters [char] :=
        not_mem_byteCharacters (by decide) (by simp [Ne.symm (not_or.mp notEscaped).1])
      rw [resolve_append noEscape, ih]
      rfl

/-- A text between quotes stands for its bytes. -/
theorem unquote_quote (text : String) :
    unquote (quote text) = some (String.ofList (byteCharacters text.toList)) := by
  simp [unquote, inner, toList_quote, decode_escaped]

end Text.Escape

open Text.Escape (escaped byteCharacters)

namespace Token

/-- A quoted text ends at its last quote. -/
theorem closeString_escaped (text : List Char) :
    closeString '"' (escaped text ++ ['"']) = some (escaped text ++ ['"'], []) := by
  induction text with
  | nil => simp [escaped, closeString]
  | cons char _ ih =>
    rw [Text.Escape.escaped_cons]
    split
    · rename_i isEscaped
      have noFeed : char ≠ '\n' := by rcases isEscaped with rfl | rfl <;> decide
      simp [closeString, noFeed, ih]
    · rename_i notEscaped
      obtain ⟨notBackslash, notQuote⟩ := not_or.mp notEscaped
      rw [singleton_append, cons_append, closeString]
      · simp [notQuote, ih]
      · simp [notBackslash]
      · simp [notBackslash]

theorem Fronts.quoted (text : String) :
    Fronts (AreOne .string (Text.Escape.quote text).toList) (Text.Escape.quote text).toList
      rest := by
  rw [Text.Escape.toList_quote]
  exact of_lexeme (.string (.inl rfl) (closeString_escaped text.toList))

end Token

/-! ## Texts of expressions -/

namespace Expr

/-- Wherever no word goes on behind it, the text is read as the expression. -/
def HasText (expected : Expr) (text : List Char) : Prop :=
  ∀ rest : List Char, (∀ next ∈ rest.head?, Token.isWordPart next = false) →
    Token.Fronts (Token.Makes expected) text rest

namespace HasText

theorem parse_eq {expected : Expr} (hasText : expected.HasText text) :
    ∃ expr, parse text = .ok expr ∧ expr.placeless = expected :=
  parse_of_makes (hasText [] (by simp))

theorem word (isWord : Token.IsWord name.toList) (notIf : name ≠ "if") :
    (Expr.name name .nowhere).HasText name.toList :=
  fun _ stops => (Token.Fronts.word isWord stops).mono fun _ isOne => .word isOne notIf

theorem null : Expr.null.HasText "null".toList := by
  intro rest stops
  have isName : Token.isName "null".toList := by decide
  exact (Token.Fronts.of_lexeme (.word isName stops)).mono fun _ => .null

/-- Without a dollar sign, nothing in a quoted text is evaluated. -/
theorem quoted {text : String} (noDollar : '$' ∉ text.toList) :
    (Expr.text (String.ofList (byteCharacters text.toList))).HasText
      (Text.Escape.quote text).toList := by
  have noMark :
      Text.contains (byteCharacters text.toList) interpolationMark = false := by
    have notMember := Text.Escape.not_mem_byteCharacters (by decide) noDollar
    rw [Text.contains, interpolationMark, Text.cutAt?_eq_none_of_not_mem notMember]
    rfl
  have isText :
      stringLiteral parse (String.ofList (Text.Escape.quote text).toList) =
        .ok (.text (String.ofList (byteCharacters text.toList))) := by
    simp [stringLiteral, Text.Escape.unquote_quote, noMark]
  exact fun _ _ => (Token.Fronts.quoted text).mono fun _ isOne => .string isOne isText

end HasText

/-- The text of a list whose elements have the given texts. -/
def listText (elements : List (List Char)) : List Char :=
  ['['] ++ (intercalate [',', ' '] elements ++ [']'])

/-- The text of an object whose fields have the given names and texts. -/
def objectText (fields : List (String × List Char)) : List Char :=
  ['{', ' '] ++ (intercalate [',', ' ']
    (fields.map fun field => field.1.toList ++ ([':', ' '] ++ field.2)) ++ [' ', '}'])

namespace HasText

variable {items : List ι} {expected : ι → Expr} {written : ι → List Char}

theorem list (haveTexts : ∀ item ∈ items, (expected item).HasText (written item)) :
    (Expr.list (items.map expected)).HasText (listText (items.map written)) := by
  intro rest _
  have opening (behind : List Char) :
      Token.Fronts (Token.AreOne .openBracket ['[']) ['['] behind :=
    .delimiter (by simp)
  have closing : Token.Fronts (Token.AreOne .closeBracket [']']) [']'] rest := .delimiter (by simp)
  have inner :
      Token.Fronts (Token.Separated (fun item => Token.Makes (expected item)) items)
        (intercalate [',', ' '] (items.map written)) ([']'] ++ rest) := by
    refine .separated fun item mem behind stops => haveTexts item mem behind ?_
    rcases stops with rfl | ⟨more, rfl⟩ <;> rintro _ ⟨⟩ <;> decide
  refine ((opening _).append (inner.append closing)).mono ?_
  rintro _ ⟨_, _, ⟨_, rfl⟩, ⟨_, _, separated, ⟨_, rfl⟩, rfl⟩, rfl⟩
  exact .list rfl rfl separated fun _ _ _ makes => makes

theorem field {value : Expr} (isWord : Token.IsWord name.toList) (hasText : value.HasText text)
    (stops : ∀ next ∈ rest.head?, Token.isWordPart next = false) :
    Token.Fronts (Token.Makes.Field (name, value)) (name.toList ++ ([':', ' '] ++ text)) rest := by
  have colon (behind : List Char) : Token.Fronts (Token.AreOne .colon [':']) [':'] behind :=
    .delimiter (by simp)
  have named :
      Token.Fronts (Token.AreOne .word name.toList) name.toList
        ([':'] ++ ([' '] ++ text) ++ rest) :=
    .word isWord (by rintro _ ⟨⟩; decide)
  refine (named.append ((colon _).append (hasText rest stops).behind_blank)).mono ?_
  rintro _ ⟨_, _, ⟨_, rfl⟩, ⟨_, others, ⟨_, rfl⟩, makes, rfl⟩, rfl⟩
  exact ⟨_, _, others, rfl, rfl, String.ofList_toList, rfl, makes⟩

theorem object {word : ι → String} (areWords : ∀ item ∈ items, Token.IsWord (word item).toList)
    (haveTexts : ∀ item ∈ items, (expected item).HasText (written item)) :
    (Expr.object (items.map fun item => (.text (word item), expected item))).HasText
      (objectText (items.map fun item => (word item, written item))) := by
  intro rest _
  have opening (behind : List Char) :
      Token.Fronts (Token.AreOne .openBrace ['{']) ['{'] behind :=
    .delimiter (by simp)
  have closing : Token.Fronts (Token.AreOne .closeBrace ['}']) ([' '] ++ ['}']) rest := by
    apply Token.Fronts.behind_blank
    exact .delimiter (by simp)
  have inner :
      Token.Fronts
        (Token.Separated (fun item => Token.Makes.Field (word item, expected item)) items)
        (intercalate [',', ' ']
          (items.map fun item => (word item).toList ++ ([':', ' '] ++ written item)))
        ([' '] ++ ['}'] ++ rest) := by
    refine .separated fun item mem behind stops =>
      field (areWords item mem) (haveTexts item mem) ?_
    rcases stops with rfl | ⟨more, rfl⟩ <;> rintro _ ⟨⟩ <;> decide
  have isText :
      objectText (items.map fun item => (word item, written item)) =
        ['{'] ++ ([' '] ++ (intercalate [',', ' ']
          (items.map fun item => (word item).toList ++ ([':', ' '] ++ written item)) ++
            ([' '] ++ ['}']))) := by
    simp [objectText, Function.comp_def]
  rw [isText]
  refine ((opening _).append (inner.append closing).behind_blank).mono ?_
  rintro _ ⟨_, _, ⟨_, rfl⟩, ⟨_, _, separated, ⟨_, rfl⟩, rfl⟩, rfl⟩
  exact .object rfl rfl separated

end HasText

end Expr

end Weave
