import Weave.Proofs.Token.Moved

namespace Weave

open List

/-!
# Texts that are put together

A text that is put together is scanned part by part: as long as no lexeme goes on into the next
part, each part is scanned into its own tokens, wherever it stands.
-/

variable {char : Char} {text rest : List Char} {tokens : List Token} {kind : Kind}

namespace Token

/-- The text is a word, and none of those that have a kind of their own. -/
def IsWord (text : List Char) : Prop := isName text = true ∧ wordKind text = .word

instance (text : List Char) : Decidable (IsWord text) := inferInstanceAs (Decidable (_ ∧ _))

/-- A character of a word is an ASCII letter, a digit or an underscore. -/
theorem code_of_isWordPart (isPart : isWordPart char) : (48 ≤ char.toNat ∧ char.toNat ≤ 57) ∨
      (65 ≤ char.toNat ∧ char.toNat ≤ 90) ∨
      (97 ≤ char.toNat ∧ char.toNat ≤ 122) ∨ char.toNat = 95 := by
  unfold isWordPart Char.isAlphanum Char.isAlpha Char.isUpper Char.isLower Char.isDigit at isPart
  simp only [Bool.or_eq_true, Bool.and_eq_true, decide_eq_true_eq, beq_iff_eq, ge_iff_le,
    UInt32.le_iff_toNat_le] at isPart
  rcases isPart with ((upper | lower) | digit) | rfl
  · exact .inr (.inl upper)
  · exact .inr (.inr (.inl lower))
  · exact .inl digit
  · exact .inr (.inr (.inr rfl))

theorem not_isBlank_of_isWordPart (isPart : isWordPart char) :
    Text.isBlank char = false := by
  have codes := code_of_isWordPart isPart
  exact isBlank_of_codes (by omega)

theorem isWordPart_of_isName (isNamed : isName text) :
    ∀ char ∈ text, isWordPart char := by
  cases text with
  | nil => cases isNamed
  | cons =>
    simp only [isName, Bool.and_eq_true, all_eq_true] at isNamed
    rw [forall_mem_cons]
    constructor
    · have starts := isNamed.1
      simp only [isWordStart, isWordPart, Char.isAlphanum, Bool.or_eq_true] at starts ⊢
      exact starts.imp_left .inl
    · exact isNamed.2

theorem IsWord.parts (isWord : IsWord text) : ∀ char ∈ text, isWordPart char :=
  isWordPart_of_isName isWord.1

/-! ## Parts of a text -/

/-- In front of a rest, a part of a text is scanned into tokens of which something holds, wherever
it stands. -/
def Fronts (holds : List Token → Prop) (front rest : List Char) : Prop :=
  ∀ position, ∃ tokens,
    holds tokens ∧
      scanAt position (front ++ rest) =
        (scanAt (position.advance front) rest).map (tokens ++ ·)

/-- The tokens are one token of a kind, with its lexeme. -/
def AreOne (kind : Kind) (lexeme : List Char) (tokens : List Token) : Prop :=
  ∃ position, tokens = [⟨kind, String.ofList lexeme, position⟩]

/-- The tokens are some of which something holds and others behind them. -/
def Then (holds also : List Token → Prop) (tokens : List Token) : Prop :=
  ∃ left right, holds left ∧ also right ∧ left ++ right = tokens

namespace Fronts

variable {holds also : List Token → Prop} {front back rest : List Char}

theorem mono (fronts : Fronts holds front rest) (weaker : ∀ tokens, holds tokens → also tokens) :
    Fronts also front rest := by
  intro pos
  obtain ⟨tokens, isHeld, scanned⟩ := fronts pos
  exact ⟨tokens, weaker tokens isHeld, scanned⟩

/-- Two parts are scanned one after the other. -/
theorem append (first : Fronts holds front (back ++ rest)) (second : Fronts also back rest) :
    Fronts (Then holds also) (front ++ back) rest := by
  intro pos
  obtain ⟨left, leftHeld, leftScanned⟩ := first pos
  obtain ⟨right, rightHeld, rightScanned⟩ := second (pos.advance front)
  refine ⟨left ++ right, ⟨left, right, leftHeld, rightHeld, rfl⟩, ?_⟩
  have advanced :
      pos.advance (front ++ back) = (pos.advance front).advance back :=
    foldl_append
  rw [append_assoc, leftScanned, rightScanned, advanced]
  cases scanAt ((pos.advance front).advance back) rest with
  | error => rfl
  | ok => simp [Except.map]

theorem nil (isHeld : holds []) : Fronts holds [] rest := by
  intro pos
  refine ⟨[], isHeld, ?_⟩
  change scanAt pos rest = (scanAt pos rest).map ([] ++ ·)
  cases scanAt pos rest <;> rfl

theorem blank : Fronts (· = []) [' '] rest := by
  intro pos
  refine ⟨[], rfl, ?_⟩
  change scanAt pos (' ' :: rest) = (scanAt (pos.next ' ') rest).map ([] ++ ·)
  rw [scanAt_blank (by decide)]
  cases scanAt (pos.next ' ') rest <;> rfl

theorem behind_blank (fronts : Fronts holds front rest) : Fronts holds ([' '] ++ front) rest := by
  refine (blank.append fronts).mono ?_
  rintro _ ⟨_, tokens, rfl, isHeld, rfl⟩
  exact isHeld

theorem before_blank (fronts : Fronts holds front ([' '] ++ rest)) :
    Fronts holds (front ++ [' ']) rest := by
  refine (fronts.append blank).mono ?_
  rintro _ ⟨tokens, _, isHeld, rfl, rfl⟩
  rwa [append_nil]

theorem of_lexeme (isLexeme : IsLexeme kind front rest) :
    Fronts (AreOne kind front) front rest := by
  intro pos
  refine ⟨[⟨kind, String.ofList front, pos⟩], ⟨pos, rfl⟩, ?_⟩
  rw [scanAt_lexeme isLexeme]
  cases scanAt (pos.advance front) rest <;> rfl

/-- The signs around and between the parts of an expression. -/
theorem delimiter (isDelimiter : (char, kind) ∈
        [('(', Kind.openParen), (')', .closeParen), ('[', .openBracket), (']', .closeBracket),
          ('{', .openBrace), ('}', .closeBrace), (',', .comma), (':', .colon)]) :
    Fronts (AreOne kind [char]) [char] rest := by
  simp only [mem_cons, not_mem_nil, or_false] at isDelimiter
  obtain ⟨rfl, rfl⟩ | ⟨rfl, rfl⟩ | ⟨rfl, rfl⟩ | ⟨rfl, rfl⟩ | ⟨rfl, rfl⟩ | ⟨rfl, rfl⟩ |
    ⟨rfl, rfl⟩ | ⟨rfl, rfl⟩ := isDelimiter
  all_goals exact of_lexeme (.sign rfl (by simp [pairKind?]) (absurd · (by decide)))

theorem arrow : Fronts (AreOne .arrow ['-', '>']) ['-', '>'] rest := of_lexeme (.pair rfl)

/-- A word in front of something that does not go on with it. -/
theorem word (isWord : IsWord text) (stops : ∀ next ∈ rest.head?, isWordPart next = false) :
    Fronts (AreOne .word text) text rest := by
  have isLexeme := IsLexeme.word isWord.1 stops
  rw [isWord.2] at isLexeme
  exact of_lexeme isLexeme

end Fronts

/-! ## Parts between commas -/

/-- The tokens are those of the items, with a comma between every two of them. -/
inductive Separated (holds : ι → List Token → Prop) : List ι → List Token → Prop
  | nil : Separated holds [] []
  | single {tokens : List Token} (isHeld : holds item tokens) :
      Separated holds [item] tokens
  | cons {next : ι} {tokens rest : List Token} {position : Position}
      (isHeld : holds item tokens) (others : Separated holds (next :: more) rest) :
      Separated holds (item :: next :: more) (tokens ++ ⟨.comma, ",", position⟩ :: rest)

/-- Parts with a comma and a blank between every two of them are scanned one after the other, if
each can be scanned in front of a comma and in front of the rest. -/
theorem Fronts.separated {holds : ι → List Token → Prop} {write : ι → List Char} {items : List ι}
    (each :
      ∀ item ∈ items, ∀ behind, (behind = rest ∨ ∃ more, behind = ',' :: more) →
        Fronts (holds item) (write item) behind) :
    Fronts (Separated holds items) (intercalate [',', ' '] (items.map write)) rest := by
  induction items with
  | nil => exact .nil .nil
  | cons item others ih =>
    cases others with
    | nil =>
      rw [map_singleton, intercalate_singleton]
      exact (each item (by simp) rest (.inl rfl)).mono fun _ => .single
    | cons =>
      have others := ih (forall_mem_cons.mp each).2
      have comma (behind : List Char) : Fronts (AreOne .comma [',']) [','] behind :=
        .delimiter (by simp)
      refine ((each item (by simp) _ (.inr ⟨_, rfl⟩)).append
        ((comma _).append others.behind_blank)).mono ?_
      rintro _ ⟨tokens, _, isHeld, ⟨_, left, ⟨pos, rfl⟩, held, rfl⟩, rfl⟩
      exact .cons isHeld held

end Token

end Weave
