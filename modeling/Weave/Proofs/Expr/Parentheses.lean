import Weave.Proofs.Expr.Pasted

namespace Weave

open List

/-!
# Parentheses around the parts of a source

Parentheses change nothing around any part of an expression, but for a name in front of an arrow,
which they make the parameter of a lambda, and for an operand whose first word is `if`, which they
make a conditional.
-/

namespace Expr

variable {source other : List Char} {expr : Expr} {front inner behind tokens : List Token}
  {opening closing ending : Token} {part : Hole}

/-- The tokens between `front` and `behind` make up a part of the expression that a source is read
as: with a mark in their place, the others make up the expression around it. -/
structure HasPart (source : List Char) (expr : Expr) (front inner behind : List Token)
    (ending : Token) (part : Hole) : Prop where
  isRead : parse source = .ok expr
  scanned : Token.scan source = .ok (front ++ inner ++ behind ++ [ending])
  isLevel : part.level.IsRead
  inside : Derives parse none (.expr part.level) inner part.value part.next
  around : ∃ mark : Token, mark.kind = .finish ∧
    Derives parse (some part) (.expr .whole) (front ++ mark :: behind) expr ending

/-- A source that has the tokens of another with parentheses around a part is read as the same
expression, but for the positions, unless the parentheses make a parameter of a name or a
conditional of a name that is written `if`. -/
theorem parse_enclosed (hasPart : HasPart source expr front inner behind ending part)
    (opens : opening.kind = .openParen) (closes : closing.kind = .closeParen)
    (scanned : Token.scan other = .ok tokens) (sameWords : tokens.map Token.placeless =
      (front ++ opening :: (inner ++ closing :: (behind ++ [ending]))).map Token.placeless)
    (noBinder : part.next.kind = .arrow → ∀ word, inner = [word] → word.kind ≠ .word)
    (notIf : part.level ≠ .whole → (ahead inner).isWord "if" = false) :
    ∃ moved, parse other = .ok moved ∧ moved.placeless = expr.placeless := by
  obtain ⟨_, isMark, around⟩ := hasPart.around
  obtain ⟨_, last, isAll, isEnd, _⟩ := (Token.cuts_of_scan hasPart.scanned).exists_ending
  obtain ⟨rfl, isLast⟩ := append_inj' isAll rfl
  obtain rfl : ending = last := by simpa using isLast
  have kept (words : List Token) (areWords : ∀ token ∈ words, token.kind ≠ .finish) :
      (words.flatMap fun token =>
        if token.kind = .finish then opening :: (inner ++ [closing]) else [token]) = words := by
    rw [flatMap_congr fun token member => if_neg (areWords token member), flatMap_singleton']
  have enclosed := around.enclose hasPart.isLevel hasPart.inside opens closes notIf noBinder
  rw [flatMap_append, flatMap_cons, if_pos isMark, kept front (by grind), kept behind (by grind)]
    at enclosed
  exact parse_of_words enclosed isEnd scanned (by simpa using sameWords)

/-- The elements of a list may be put in parentheses. -/
theorem parse_enclosed_element : ∃ moved, parse "[(a)]".toList = .ok moved ∧
      moved.placeless = (Expr.list [.name "a" ⟨1, 2⟩]).placeless := by
  have isRead : parse "[a]".toList = .ok (.list [.name "a" ⟨1, 2⟩]) := by cbv
  have scanned : Token.scan "[a]".toList = .ok ([⟨.openBracket, "[", ⟨1, 1⟩⟩] ++
      [⟨.word, "a", ⟨1, 2⟩⟩] ++ [⟨.closeBracket, "]", ⟨1, 3⟩⟩] ++ [⟨.finish, "", ⟨1, 4⟩⟩]) := by
    cbv
  have otherScanned : Token.scan "[(a)]".toList = .ok [⟨.openBracket, "[", ⟨1, 1⟩⟩,
      ⟨.openParen, "(", ⟨1, 2⟩⟩, ⟨.word, "a", ⟨1, 3⟩⟩, ⟨.closeParen, ")", ⟨1, 4⟩⟩,
      ⟨.closeBracket, "]", ⟨1, 5⟩⟩, ⟨.finish, "", ⟨1, 6⟩⟩] := by
    cbv
  have hasPart : HasPart "[a]".toList (.list [.name "a" ⟨1, 2⟩]) [⟨.openBracket, "[", ⟨1, 1⟩⟩]
      [⟨.word, "a", ⟨1, 2⟩⟩] [⟨.closeBracket, "]", ⟨1, 3⟩⟩] ⟨.finish, "", ⟨1, 4⟩⟩
      ⟨.whole, .name "a" ⟨1, 2⟩, ⟨.closeBracket, "]", ⟨1, 3⟩⟩⟩ := by
    refine ⟨isRead, scanned, trivial, ?_, ⟨.finish, "", .nowhere⟩, rfl, ?_⟩
    · exact .whole (.start (.inr rfl) (.literal rfl)) (by decide)
        (Token.endsUpTo_of_ends (by decide) 4)
    · refine .whole (.start (.inr rfl) (.list rfl (.filled (by decide) ?_))) (by decide)
        (Token.endsUpTo_of_ends (by decide) 4)
      exact @Derives.last _ _ (.expr .whole) [_] _ .square _ _ rfl trivial (.hole rfl rfl)
  exact @parse_enclosed _ _ _ _ _ _ _ ⟨.openParen, "(", .nowhere⟩ ⟨.closeParen, ")", .nowhere⟩ _ _
    hasPart rfl rfl otherScanned rfl (by simp) (by simp)

end Expr

end Weave
