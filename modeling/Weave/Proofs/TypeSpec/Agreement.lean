import Mathlib
import Weave.Proofs.Reader
import Weave.Proofs.Token.Pasted
import Weave.TypeSpec.Parser

namespace Weave.TypeSpec

open List Reader Text

/-!
# The two readers of types

A type is read from characters in an annotation and from tokens in an expression.  On texts of
words, brackets, commas and spaces the two readers go forward together: where one of them stands
in the text, the other stands at the tokens of the rest.
-/

open Token (IsWord isWordStart isWordPart)

variable {char : Char} {kind : Token.Kind}
  {item : List Char → Except ParseFault (TypeSpec × List Char)} {fuel bound : Nat} {α : Type}
  {text source rest : List Char} {tokens : List Token} {spec : TypeSpec}

/-! ## Texts of types -/

/-- The signs of types, with the kinds of their tokens. -/
def signs : List (Char × Token.Kind) := [('<', .less), ('>', .greater), (',', .comma)]

/-- The text is made of words, signs and spaces, and no word goes on into the next. -/
inductive IsTypeText : List Char → Prop
  | nil : IsTypeText []
  | blank {rest : List Char} (others : IsTypeText rest) : IsTypeText (' ' :: rest)
  | sign {kind : Token.Kind} {rest : List Char}
      (isSign : (character, kind) ∈ signs) (others : IsTypeText rest) :
      IsTypeText (character :: rest)
  | word {rest : List Char} (isWord : IsWord word)
      (stops : ∀ next ∈ rest.head?, isWordPart next = false) (others : IsTypeText rest) :
      IsTypeText (word ++ rest)

/-- The tokens are those of the text, the last one included. -/
inductive Scanned : List Char → List Token → Prop
  | finish {text : List Char} {ending : Token} (isEnd : Text.trimStart text = [])
      (isLast : ending.kind = .finish) :
      Scanned text [ending]
  | sign {text rest : List Char} {character : Char} {token : Token} {tokens : List Token}
      (isSign : (character, token.kind) ∈ signs)
      (starts : Text.trimStart text = character :: rest) (others : Scanned rest tokens) :
      Scanned text (token :: tokens)
  | word {text rest : List Char} {first : Char} {more : List Char} {position : Position}
      {tokens : List Token} (isFirst : isWordStart first = true)
      (isName : ∀ next ∈ first :: more, isNameCharacter next = true)
      (stops : ∀ next ∈ rest.head?, isNameCharacter next = false)
      (starts : Text.trimStart text = first :: more ++ rest) (others : Scanned rest tokens) :
      Scanned text (⟨.word, String.ofList (first :: more), position⟩ :: tokens)

theorem mem_signs : (char, kind) ∈ signs ↔
      char = '<' ∧ kind = .less ∨ char = '>' ∧ kind = .greater ∨ char = ',' ∧ kind = .comma := by
  simp [signs]

theorem IsTypeText.start (isText : IsTypeText source) : ∀ next ∈ source.head?,
      next = ' ' ∨ (∃ kind, (next, kind) ∈ signs) ∨ isWordStart next := by
  intro next isHead
  cases isText with
  | nil => cases isHead
  | blank => exact .inl (Option.some.inj isHead).symm
  | sign isSign =>
    cases isHead
    exact .inr (.inl ⟨_, isSign⟩)
  | @word word _ isWord =>
    cases word with
    | nil => cases isWord.1
    | cons =>
      cases isHead
      exact .inr (.inr (Bool.and_eq_true_iff.mp isWord.1).1)

/-- Behind a bracket there is nothing that makes one sign with it. -/
theorem IsTypeText.head_ne (isText : IsTypeText source) : ∀ next ∈ source.head?, next ≠ '=' := by
  rintro _ isHead rfl
  obtain isBlank | ⟨kind, isSign⟩ | isStart := isText.start _ isHead
  · exact absurd isBlank (by decide)
  · simp [mem_signs] at isSign
  · exact absurd isStart (by decide)

theorem isNameCharacter_of_isWordPart (isPart : isWordPart char) :
    isNameCharacter char := by
  have small : char.toNat < 128 := by
    have codes := Token.code_of_isWordPart isPart
    omega
  simp only [isWordPart, isNameCharacter, isLetterOrDigit, small, if_true,
    Bool.or_eq_true] at isPart ⊢
  exact .inl isPart

/-- What does not go on with a word does not go on with a name. -/
theorem IsTypeText.name_stops (isText : IsTypeText source)
    (stops : ∀ next ∈ source.head?, isWordPart next = false) :
    ∀ next ∈ source.head?, isNameCharacter next = false := by
  intro next isHead
  obtain rfl | ⟨kind, isSign⟩ | isStart := isText.start next isHead
  · decide
  · obtain ⟨rfl, _⟩ | ⟨rfl, _⟩ | ⟨rfl, _⟩ := mem_signs.mp isSign
    all_goals decide
  · simp_all [isWordStart, isWordPart, Char.isAlphanum]

/-- Only what stands behind the blanks matters. -/
theorem Scanned.of_trimStart_eq (scanned : Scanned text tokens)
    (same : trimStart other = trimStart text) :
    Scanned other tokens := by
  cases scanned with
  | finish isEnd isLast => exact .finish (same.trans isEnd) isLast
  | sign isSign starts others => exact .sign isSign (same.trans starts) others
  | word isFirst isName stops starts others =>
    exact .word isFirst isName stops (same.trans starts) others

/-- A text of types is scanned, and its tokens are those of its signs and words. -/
theorem IsTypeText.scanned (isText : IsTypeText source) (pos : Position) :
    ∃ tokens, Token.scanAt pos source = .ok tokens ∧ Scanned source tokens := by
  induction isText generalizing pos with
  | nil => exact ⟨_, rfl, .finish rfl rfl⟩
  | blank _ ih =>
    rw [Token.scanAt_blank (by decide)]
    obtain ⟨tokens, scanned, areThose⟩ := ih (pos.next ' ')
    exact ⟨tokens, scanned, areThose.of_trimStart_eq rfl⟩
  | @sign char kind rest isSign others ih =>
    have fronts : Token.Fronts (Token.AreOne kind [char]) [char] rest := by
      obtain ⟨rfl, rfl⟩ | ⟨rfl, rfl⟩ | ⟨rfl, rfl⟩ := mem_signs.mp isSign
      all_goals
        refine .of_lexeme (.sign rfl (fun next isHead => ?_) (absurd · (by decide)))
        simp [Token.pairKind?, others.head_ne next isHead]
    have starts : trimStart (char :: rest) = char :: rest := by
      obtain ⟨rfl, _⟩ | ⟨rfl, _⟩ | ⟨rfl, _⟩ := mem_signs.mp isSign
      all_goals rfl
    obtain ⟨_, ⟨_, rfl⟩, front⟩ := fronts pos
    obtain ⟨tokens, scanned, areThose⟩ := ih (pos.advance [char])
    exact ⟨_, by rw [← singleton_append, front, scanned]; rfl, .sign isSign starts areThose⟩
  | @word word _ isWord stops others ih =>
    obtain ⟨_, ⟨_, rfl⟩, front⟩ := Token.Fronts.word isWord stops pos
    obtain ⟨tokens, scanned, areThose⟩ := ih (pos.advance word)
    refine ⟨_, by rw [front, scanned]; rfl, ?_⟩
    cases word with
    | nil => cases isWord.1
    | cons first =>
      have isStart := (Bool.and_eq_true_iff.mp isWord.1).1
      have notBlank := Token.not_isBlank_of_isWordPart (isWord.parts first mem_cons_self)
      refine .word isStart (fun next mem => ?_) (others.name_stops stops) ?_ areThose
      · exact isNameCharacter_of_isWordPart (isWord.parts next mem)
      · simp [trimStart, notBlank]

theorem Scanned.length_le (scanned : Scanned text tokens) : tokens.length ≤ text.length + 1 := by
  induction scanned with
  | finish => exact Nat.le_add_left 1 _
  | @sign text _ _ _ _ _ starts =>
    have shorter : (trimStart text).length ≤ text.length := length_dropWhile_le _ _
    simp only [starts, length_cons] at shorter ⊢
    omega
  | @word text _ _ _ _ _ _ _ _ starts =>
    have shorter : (trimStart text).length ≤ text.length := length_dropWhile_le _ _
    simp only [starts, length_cons, length_append] at shorter ⊢
    omega

theorem Scanned.length_pos (scanned : Scanned text tokens) : 0 < tokens.length := by
  cases scanned <;> exact Nat.succ_pos _

/-- The text is at its end if only the last token is left. -/
theorem Scanned.trimStart_eq_nil_iff (scanned : Scanned text tokens) :
    trimStart text = [] ↔ ∃ ending, ending.kind = .finish ∧ tokens = [ending] := by
  cases scanned with
  | finish isEnd isLast => simp [isEnd, isLast]
  | sign isSign starts others | word isFirst isName stops starts others =>
    have isSome := ne_nil_of_length_pos others.length_pos
    simp [starts, isSome]

/-- A sign stands next in the text if its token stands next. -/
theorem Scanned.meets (isSign : (char, kind) ∈ signs) (scanned : Scanned text tokens) :
    ∃ token left, tokens = token :: left ∧
      ((∃ rest, trimStart text = char :: rest ∧ token.kind = kind ∧ Scanned rest left) ∨
        (∀ rest, trimStart text ≠ char :: rest) ∧ token.kind ≠ kind) := by
  cases scanned with
  | @finish _ ending isEnd isLast =>
    refine ⟨ending, [], rfl, .inr ⟨by simp [isEnd], ?_⟩⟩
    rintro rfl
    simp [mem_signs, isLast] at isSign
  | @sign _ rest other token left isOther starts others =>
    refine ⟨token, left, rfl, ?_⟩
    by_cases isSame : other = char
    · subst isSame
      have sameKind : token.kind = kind := by
        simp only [mem_signs] at isSign isOther
        grind
      exact .inl ⟨rest, starts, sameKind, others⟩
    · refine .inr ⟨by simp [starts, isSame], fun sameKind => isSame ?_⟩
      simp only [mem_signs] at isSign isOther
      grind
  | @word _ _ first _ _ left isFirst _ _ starts =>
    refine ⟨_, left, rfl, .inr ⟨?_, ?_⟩⟩
    · have noWord : first ≠ char := by
        rintro rfl
        obtain ⟨rfl, _⟩ | ⟨rfl, _⟩ | ⟨rfl, _⟩ := mem_signs.mp isSign
        all_goals exact absurd isFirst (by decide)
      simp [starts, noWord]
    · rintro rfl
      simp [mem_signs] at isSign

/-! ## The readers side by side -/

/-- Both readers refuse, or both give the same and stop at the same place, where fewer tokens are
left than the limit. -/
inductive Agree (limit : Nat) :
    Except ParseFault (α × List Char) → Except ParseFault (α × List Token) → Prop
  | read {value : α} {rest : List Char} {tokens : List Token} (scanned : Scanned rest tokens)
      (isNearer : tokens.length < limit) :
      Agree limit (.ok (value, rest)) (.ok (value, tokens))
  | refused {fault other : ParseFault} : Agree limit (.error fault) (.error other)

theorem Agree.bind {near limit : Nat} {first : Except ParseFault (α × List Char)}
    {next : α × List Char → Except ParseFault (β × List Char)} {reader : Reader α}
    {others : α → Reader β} (agree : Agree near first (reader tokens)) (go :
      ∀ value rest left, Scanned rest left → left.length < near →
        Agree limit (next (value, rest)) (others value left)) :
    Agree limit (first >>= next) ((reader >>= others) tokens) := by
  rw [run_bind]
  generalize reader tokens = result at agree
  cases agree with
  | read scanned isNearer => exact go _ _ _ scanned isNearer
  | refused => exact .refused

theorem agree_generics {reader : Reader TypeSpec} (scanned : Scanned text tokens) (each :
      ∀ part left, Scanned part left → left.length ≤ tokens.length →
        Agree left.length (item part) (reader left))
    (enough : tokens.length ≤ fuel) (alsoEnough : tokens.length ≤ bound) :
    Agree tokens.length (genericsOf item fuel text)
      (itemsThen .greater reader bound tokens) := by
  -- Every item leaves fewer tokens than it found, so neither limit runs out before the close.
  induction fuel generalizing bound text tokens with
  | zero => exact absurd scanned.length_pos (by omega)
  | succ fuel ih =>
    rcases bound with _ | bound
    · exact absurd scanned.length_pos (by omega)
    refine .bind (each _ _ scanned (Nat.le_refl _)) fun first rest left others isNearer => ?_
    dsimp only
    obtain ⟨token, further, rfl, comma | ⟨noComma, notComma⟩⟩ :=
      others.meets (mem_signs.mpr (.inr (.inr ⟨rfl, rfl⟩)))
    · obtain ⟨behind, starts, isComma, others⟩ := comma
      rw [length_cons] at isNearer
      have more : Agree further.length (genericsOf item fuel behind)
          (itemsThen .greater reader bound further) :=
        ih others (fun part left scanned isLess => each part left scanned (by omega)) (by omega)
          (by omega)
      rw [starts, run_bind, run_accept, if_pos isComma]
      exact .bind more fun generics rest left scanned isFurther => .read scanned (by omega)
    rw [run_bind, run_accept, if_neg notComma]
    obtain ⟨_, _, ⟨⟩, close | ⟨noClose, notClose⟩⟩ :=
      others.meets (mem_signs.mpr (.inr (.inl ⟨rfl, rfl⟩)))
    · obtain ⟨behind, starts, isClose, others⟩ := close
      simp [starts, isClose]
      exact .read others (by rw [length_cons] at isNearer; omega)
    · simp [notClose]
      exact .refused

/-- A name is cut off in front of what does not go on with it. -/
theorem name_append {name : List Char} (isName : ∀ next ∈ name, isNameCharacter next)
    (stops : ∀ next ∈ rest.head?, isNameCharacter next = false) :
    (name ++ rest).takeWhile isNameCharacter = name ∧
      (name ++ rest).dropWhile isNameCharacter = rest := by
  rw [takeWhile_append_of_pos isName, dropWhile_append_of_pos isName]
  cases rest with
  | nil => simp
  | cons next => simp [stops next rfl]

theorem agree_readWithin (scanned : Scanned text tokens) (enough : tokens.length ≤ fuel)
    (alsoEnough : tokens.length ≤ bound) :
    Agree tokens.length (readWithin fuel text) (TypeSpec.reader bound tokens) := by
  induction fuel generalizing bound text tokens with
  | zero => exact absurd scanned.length_pos (by omega)
  | succ fuel ih =>
    rcases bound with _ | bound
    · exact absurd scanned.length_pos (by omega)
    unfold readWithin TypeSpec.reader
    dsimp only
    cases scanned with
    | finish isEnd isLast =>
      simp [isEnd, isLast]
      exact .refused
    | @sign _ _ char token _ isSign starts =>
      have noName : isNameCharacter char = false ∧ token.kind ≠ .word := by
        obtain ⟨rfl, isKind⟩ | ⟨rfl, isKind⟩ | ⟨rfl, isKind⟩ := mem_signs.mp isSign
        all_goals exact ⟨by decide, by simp [isKind]⟩
      simp [starts, noName]
      exact .refused
    | @word _ rest _ _ _ _ _ isName stops starts others =>
      obtain ⟨taken, dropped⟩ := name_append isName stops
      rw [length_cons] at enough alsoEnough ⊢
      rw [starts, taken, dropped, run_bind, run_expect, if_pos rfl]
      simp only [reduceCtorEq, if_false]
      obtain ⟨token, further, rfl, open_ | ⟨noOpen, notOpen⟩⟩ :=
        others.meets (mem_signs.mpr (.inl ⟨rfl, rfl⟩))
      · obtain ⟨inner, starts, isOpen, others⟩ := open_
        rw [length_cons] at enough alsoEnough ⊢
        have generics : Agree further.length (genericsOf (readWithin fuel) (fuel + 1) inner)
            (itemsThen .greater (TypeSpec.reader bound) bound further) :=
          agree_generics others (fun part left scanned isLess => ih scanned (by omega) (by omega))
            (by omega) (by omega)
        rw [starts, run_bind, run_accept, if_pos isOpen]
        exact .bind generics fun specs rest left scanned isFurther => .read scanned (by omega)
      · rw [run_bind, run_accept, if_neg notOpen]
        simp
        exact .read (others.of_trimStart_eq (dropWhile_idempotent _ _)) (Nat.lt_succ_self _)

/-- A whole text is read as a type if its tokens are, up to the last one. -/
theorem parse_eq_ok_iff (scanned : Scanned source tokens) (enough : tokens.length ≤ bound) :
    parse source = .ok spec ↔
      ∃ ending, ending.kind = .finish ∧ TypeSpec.reader bound tokens = .ok (spec, [ending]) := by
  have agree := agree_readWithin scanned scanned.length_le enough
  unfold parse
  generalize readWithin (source.length + 1) source = read at agree
  generalize TypeSpec.reader bound tokens = found at agree
  cases agree with
  | refused => simp [bind, Except.bind]
  | @read value rest left stop =>
    change (if (trimStart rest).isEmpty = true then Except.ok value else .error _) = _ ↔ _
    by_cases isEnd : trimStart rest = []
    · obtain ⟨ending, isLast, rfl⟩ := stop.trimStart_eq_nil_iff.mp isEnd
      simp [isEnd, isLast]
    · have notLast : ∀ ending : Token, ending.kind = .finish → left ≠ [ending] :=
        fun ending isLast same => isEnd (stop.trimStart_eq_nil_iff.mpr ⟨ending, isLast, same⟩)
      simpa [isEnd] using fun ending isLast _ => notLast ending isLast

/-! ## Printed types -/

mutual

/-- A type as it is printed: its generics stand in brackets, with a comma and a space between. -/
def print : TypeSpec → List Char
  | .mk name generics => name.toList ++ printGenerics generics

def printGenerics : List TypeSpec → List Char
  | [] => []
  | first :: others => '<' :: print first ++ printOthers others

/-- The generics behind the first one, with the bracket that closes them. -/
def printOthers : List TypeSpec → List Char
  | [] => ['>']
  | next :: others => ',' :: ' ' :: print next ++ printOthers others

end

/-- Every name in the type is a word. -/
inductive IsProper : TypeSpec → Prop
  | mk {name : String} {generics : List TypeSpec} (isWord : IsWord name.toList)
      (areProper : ∀ generic ∈ generics, IsProper generic) :
      IsProper (.mk name generics)

/-- Nothing more of a type stands here. -/
def Ends (rest : List Char) : Prop := ∀ next ∈ rest.head?, next = ',' ∨ next = '>'

theorem Ends.stops (ends : Ends rest) : ∀ next ∈ rest.head?, isNameCharacter next = false := by
  intro next isHead
  obtain rfl | rfl := ends next isHead
  all_goals decide

theorem stops_printGenerics (generics : List TypeSpec) (ends : Ends rest) :
    ∀ next ∈ (printGenerics generics ++ rest).head?, isNameCharacter next = false := by
  cases generics with
  | nil => exact ends.stops
  | cons =>
    rintro _ ⟨⟩
    decide

theorem ends_printOthers (others : List TypeSpec) : Ends (printOthers others ++ rest) := by
  cases others with
  | nil =>
    rintro _ ⟨⟩
    exact .inr rfl
  | cons =>
    rintro _ ⟨⟩
    exact .inl rfl

/-- The generics are fewer than the characters that print them, and each is printed with fewer. -/
theorem length_lt_printOthers (others : List TypeSpec) :
    others.length < (printOthers others).length ∧
      ∀ generic ∈ others, (print generic).length < (printOthers others).length := by
  induction others with
  | nil => simp [printOthers]
  | cons _ _ ih =>
    obtain ⟨fewer, shorter⟩ := ih
    simp only [printOthers, length_cons, length_append, forall_mem_cons]
    refine ⟨by omega, by omega, fun generic mem => ?_⟩
    have isShorter := shorter generic mem
    omega

theorem genericsOf_print {others : List TypeSpec} (each :
      ∀ generic ∈ first :: others, ∀ rest, Ends rest →
        item (print generic ++ rest) = .ok (generic, rest))
    (skips : ∀ text, item (' ' :: text) = item text) (enough : others.length < fuel) :
    genericsOf item fuel (print first ++ (printOthers others ++ rest)) =
      .ok (first :: others, rest) := by
  induction others generalizing first fuel with
  | nil =>
    rcases fuel with _ | fuel
    · omega
    rw [genericsOf, each first mem_cons_self _ (ends_printOthers [])]
    rfl
  | cons next others ih =>
    rcases fuel with _ | fuel
    · omega
    rw [genericsOf, each first mem_cons_self _ (ends_printOthers (next :: others))]
    have more := ih (forall_mem_cons.mp each).2 (Nat.lt_of_succ_lt_succ enough)
    have skipped : genericsOf item fuel (' ' :: (print next ++ (printOthers others ++ rest))) =
        .ok (next :: others, rest) := by
      rw [← more]
      cases fuel with
      | zero => rfl
      | succ => rw [genericsOf, genericsOf, skips]
    change (genericsOf item fuel (' ' :: (print next ++ printOthers others) ++ rest) >>= _) = _
    rw [cons_append, append_assoc, skipped]
    rfl

theorem readWithin_print (isProper : IsProper spec) (ends : Ends rest)
    (enough : (print spec).length ≤ bound) :
    readWithin bound (print spec ++ rest) = .ok (spec, rest) := by
  induction isProper generalizing bound rest with
  | @mk name generics isWord _ ih =>
    rw [print, length_append] at enough
    obtain ⟨first, more, named⟩ : ∃ first more, name.toList = first :: more :=
      exists_cons_of_ne_nil fun isNone => by cases isNone ▸ isWord.1
    rcases bound with _ | bound
    · simp [named] at enough
    obtain ⟨taken, dropped⟩ :=
      name_append (fun next mem => isNameCharacter_of_isWordPart (isWord.parts next mem))
        (stops_printGenerics generics ends)
    have notBlank := Token.not_isBlank_of_isWordPart (isWord.parts first (named ▸ mem_cons_self))
    have starts : trimStart (name.toList ++ (printGenerics generics ++ rest)) =
        name.toList ++ (printGenerics generics ++ rest) := by
      simp [trimStart, named, notBlank]
    have isSome : name.toList.isEmpty = false := by simp [named]
    rw [print, append_assoc, readWithin]
    rw [starts, taken, dropped, isSome, String.ofList_toList]
    cases generics with
    | nil =>
      cases rest with
      | nil => rfl
      | cons next =>
        obtain rfl | rfl := ends next rfl
        all_goals rfl
    | cons generic others =>
      obtain ⟨fewer, shorter⟩ := length_lt_printOthers others
      rw [printGenerics, length_append, length_cons] at enough
      have generics :
          genericsOf (readWithin bound) (bound + 1)
              (print generic ++ (printOthers others ++ rest)) =
            .ok (generic :: others, rest) := by
        refine genericsOf_print (fun part mem rest ends => ih part mem ends ?_) ?_ (by omega)
        · obtain rfl | isOther := mem_cons.mp mem
          · omega
          · have isShorter := shorter part isOther
            omega
        · intro text
          cases bound <;> rfl
      change (genericsOf (readWithin bound) (bound + 1)
        (print generic ++ printOthers others ++ rest) >>= _) = _
      rw [append_assoc, generics]
      rfl

theorem isTypeText_print (isProper : IsProper spec) (ends : Ends rest) (others : IsTypeText rest) :
    IsTypeText (print spec ++ rest) := by
  induction isProper generalizing rest with
  | @mk _ generics isWord _ ih =>
    rw [print, append_assoc]
    refine .word isWord (fun next isHead => ?_) ?_
    · have stops := stops_printGenerics generics ends next isHead
      exact Bool.eq_false_iff.mpr fun isPart =>
        Bool.eq_false_iff.mp stops (isNameCharacter_of_isWordPart isPart)
    have further : ∀ left ⊆ generics, IsTypeText (printOthers left ++ rest) := by
      intro left
      induction left with
      | nil => exact fun _ => .sign (mem_signs.mpr (.inr (.inl ⟨rfl, rfl⟩))) others
      | cons next left follow =>
        intro subset
        rw [cons_subset] at subset
        simp only [printOthers, append_assoc]
        exact .sign (mem_signs.mpr (.inr (.inr ⟨rfl, rfl⟩)))
          (.blank (ih next subset.1 (ends_printOthers left) (follow subset.2)))
    cases generics with
    | nil => exact others
    | cons first generics =>
      simp only [printGenerics, append_assoc]
      exact .sign (mem_signs.mpr (.inl ⟨rfl, rfl⟩))
        (ih first mem_cons_self (ends_printOthers generics)
          (further generics (subset_cons_self _ _)))

theorem parse_printed (isProper : IsProper spec) : parse (print spec) = .ok spec := by
  have isRead : readWithin _ (print spec ++ []) = .ok (spec, []) :=
    readWithin_print isProper (by rintro _ ⟨⟩) (Nat.le_succ _)
  rw [append_nil] at isRead
  rw [parse, isRead]
  rfl

/-- On texts of types the two readers accept the same and give the same, and both give a type back
that is printed. -/
theorem type_readers_agree : (∀ source, IsTypeText source →
      ∃ tokens, Token.scan source = .ok tokens ∧
        ∀ bound, tokens.length ≤ bound → ∀ spec,
          (parse source = .ok spec ↔
            ∃ ending, ending.kind = .finish ∧
              TypeSpec.reader bound tokens = .ok (spec, [ending]))) ∧
    ∀ spec, IsProper spec →
      parse (print spec) = .ok spec ∧
        ∃ tokens, Token.scan (print spec) = .ok tokens ∧
          ∀ bound, tokens.length ≤ bound →
            ∃ ending, ending.kind = .finish ∧
              TypeSpec.reader bound tokens = .ok (spec, [ending]) := by
  refine ⟨fun source isText => ?_, fun spec isProper => ?_⟩
  · obtain ⟨tokens, scanned, areThose⟩ := isText.scanned _
    exact ⟨tokens, scanned, fun bound enough spec => parse_eq_ok_iff areThose enough⟩
  · have isText := isTypeText_print isProper (by rintro _ ⟨⟩) .nil
    rw [append_nil] at isText
    obtain ⟨tokens, scanned, areThose⟩ := isText.scanned _
    exact ⟨parse_printed isProper, tokens, scanned, fun bound enough =>
      (parse_eq_ok_iff areThose enough).mp (parse_printed isProper)⟩

/-- Spaces where the printed form has none, and a keyword among the names. -/
theorem type_readers_agree_spaced :
    IsTypeText "Map< if,A >".toList ∧ IsProper (.mk "Map" [.mk "if" [], .mk "A" []]) ∧
      parse "Map< if,A >".toList = .ok (.mk "Map" [.mk "if" [], .mk "A" []]) ∧
      parse "Map<if, A>".toList = .ok (.mk "Map" [.mk "if" [], .mk "A" []]) ∧
      ∃ tokens ending, Token.scan "Map< if,A >".toList = .ok tokens ∧ ending.kind = .finish ∧
        TypeSpec.reader tokens.length tokens =
          .ok (.mk "Map" [.mk "if" [], .mk "A" []], [ending]) := by
  have isText : IsTypeText
      (['M', 'a', 'p'] ++ '<' :: ' ' :: (['i', 'f'] ++ ',' :: (['A'] ++ [' ', '>']))) :=
    .word (by decide) (by rintro _ ⟨⟩; rfl) <| .sign (mem_signs.mpr (.inl ⟨rfl, rfl⟩)) <|
      .blank <| .word (by decide) (by rintro _ ⟨⟩; rfl) <|
      .sign (mem_signs.mpr (.inr (.inr ⟨rfl, rfl⟩))) <|
      .word (by decide) (by rintro _ ⟨⟩; rfl) <| .blank <|
      .sign (mem_signs.mpr (.inr (.inl ⟨rfl, rfl⟩))) .nil
  have isProper : IsProper (.mk "Map" [.mk "if" [], .mk "A" []]) := by
    refine .mk (by decide) ?_
    simp only [forall_mem_cons, not_mem_nil, false_implies, implies_true, and_true]
    exact ⟨.mk (by decide) (by simp), .mk (by decide) (by simp)⟩
  have isRead : parse "Map< if,A >".toList = .ok (.mk "Map" [.mk "if" [], .mk "A" []]) := by
    cbv
  obtain ⟨tokens, scanned, agrees⟩ := type_readers_agree.1 _ isText
  obtain ⟨ending, isLast, reads⟩ := (agrees _ (Nat.le_refl _) _).mp isRead
  exact ⟨isText, isProper, isRead, (type_readers_agree.2 _ isProper).1, tokens, ending, scanned,
    isLast, reads⟩

end Weave.TypeSpec
