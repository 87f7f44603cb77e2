import Weave.Proofs.Script.Plain
import Weave.Session

namespace Weave

/-!
# Scripts that are refused

A source that is no script is refused with a fault that names a rule of the language and leaves
room for another attempt.  Only a literal that stands for no text is refused in another way.
-/

/-- The text is the body of the source, below a header that can be read if there is one. -/
inductive Script.HasBody (source text : List Char) : Prop
  | alone (noMark : Text.cutAt? bodyMark (Text.trim source) = none)
      (isBody : text = Text.trim source)
  | below {above below : List Char} {header : Header}
      (cut : Text.cutAt? bodyMark (Text.trim source) = some (above, below))
      (isHeader : Header.parse (Text.trim above) = .ok header) (isBody : text = Text.trim below)

/-- Nothing is read before the body that could be refused as the body is. -/
theorem Script.parse_of_refused (hasBody : HasBody source text) (notEmpty : text ≠ [])
    (refused : Expr.parse text = .error fault) :
    Script.parse source = .error fault := by
  cases hasBody with
  | alone noMark isBody =>
    subst isBody
    simp [Script.parse, noMark, notEmpty, refused, bind, Except.bind]
  | below cut isHeader isBody =>
    subst isBody
    simp [Script.parse, cut, isHeader, refused, bind, Except.bind]

/--
Reading a source ends with a script, or with a fault that leaves room for another attempt, or for a
literal that cannot be read, somewhere in the source; reading never gives up for the depth of the
source.  Every body that begins with an unreadable literal is refused for it, unless the literal
gives a character by name, since names are not known here.
-/
theorem Session.parse_refuses_unreadable (source : String) :
    ((∃ script, parse source = .ok script) ∨
      (∃ fault : ParseFault, fault.isRecoverable = true ∧
        parse source = .error (.malformed fault (some source))) ∨
      (HoldsUnreadable source.toList ∧
        parse source = .error (.malformed .unreadableEscape (some source)))) ∧
    ∀ (body : List Char) (literal : Token) (others : List Token),
      Script.HasBody source.toList body → Token.scan body = .ok (literal :: others) →
        literal.kind = .string → Text.contains literal.lexeme.toList ['\\', 'N'] = false →
        Text.Escape.unquote literal.lexeme = none →
          parse source = .error (.malformed .unreadableEscape (some source)) := by
  refine ⟨?_, fun body literal others hasBody scanned isString _ noValue => ?_⟩
  · have concludes := Script.parse_concludes source.toList
    cases isRead : Script.parse source.toList with
    | ok script => exact .inl ⟨script, by rw [parse, isRead]⟩
    | error fault =>
      rcases concludes.raises fault isRead with recoverable | ⟨rfl, holds⟩
      · exact .inr (.inl ⟨fault, recoverable, by rw [parse, isRead]⟩)
      · exact .inr (.inr ⟨holds, by rw [parse, isRead]⟩)
  · have refused := Expr.parse_of_unreadable scanned isString noValue
    have notEmpty : body ≠ [] := by
      rintro rfl
      cases scanned
      cases isString
    rw [parse, Script.parse_of_refused hasBody notEmpty refused]

/-- An escape by number lacks its digits, below a header. -/
theorem Session.parse_refuses_unreadable_digits :
    Script.HasBody "%dw 2.0\n---\n\"\\x\"".toList "\"\\x\"".toList ∧
    Token.scan "\"\\x\"".toList =
      .ok [⟨.string, "\"\\x\"", ⟨1, 1⟩⟩, ⟨.finish, "", ⟨1, 5⟩⟩] ∧
    Text.contains "\"\\x\"".toList ['\\', 'N'] = false ∧ Text.Escape.unquote "\"\\x\"" = none ∧
    Session.parse "%dw 2.0\n---\n\"\\x\"" =
      .error (.malformed .unreadableEscape (some "%dw 2.0\n---\n\"\\x\"")) := by
  have hasBody : Script.HasBody "%dw 2.0\n---\n\"\\x\"".toList "\"\\x\"".toList :=
    @Script.HasBody.below _ _ "%dw 2.0\n".toList _ _ (by cbv) (by cbv) (by cbv)
  have scanned :
      Token.scan "\"\\x\"".toList =
        .ok [⟨.string, "\"\\x\"", ⟨1, 1⟩⟩, ⟨.finish, "", ⟨1, 5⟩⟩] := by
    cbv
  have noName : Text.contains "\"\\x\"".toList ['\\', 'N'] = false := by cbv
  have noValue : Text.Escape.unquote "\"\\x\"" = none := by cbv
  exact ⟨hasBody, scanned, noName, noValue,
    (Session.parse_refuses_unreadable _).2 _ _ _ hasBody scanned rfl noName noValue⟩

end Weave
