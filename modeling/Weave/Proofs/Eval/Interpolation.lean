import Weave.Proofs.Eval.Engine
import Weave.Proofs.Expr.Termination
import Weave.Proofs.Grammar.Written

namespace Weave

open List String

/-!
# Texts that are split when they are read or when they are evaluated

A text with interpolations is split into parts when it is read, and then the parts are evaluated; or
it is left as it is, and split and read piece by piece when it is evaluated.  Both ways cut the text
at the same places and read the same expressions.  They write lists and objects in different words,
and leave the same if no interpolation stands for one.
-/

namespace Outcome

/-- What comes next matters for the value that is left only. -/
theorem bind_congr_of_result {α β : Type} {outcome : Outcome α} {next other : α → Outcome β}
    (same : ∀ found, outcome.result = .ok found → next found = other found) :
    outcome >>= next = outcome >>= other := by
  obtain ⟨_, result⟩ := outcome
  cases result with
  | error => rfl
  | ok found =>
    change andThen _ next = andThen _ other
    simp only [andThen, same found rfl]

end Outcome

namespace Eval

/-! ## The characters that parts and pieces leave -/

variable {engine : Engine} {ctx : Context}

/-- The characters of the texts of parts, one behind the other. -/
def spelled (engine : Engine) (context : Context) (parts : List Expr) : Outcome (List Char) := do
  let texts ← Outcome.each
    (fun part => do
      let value ← engine.eval context part
      (value.interpolated : Except Fault String))
    parts
  return texts.flatMap String.toList

/-- The characters of pieces, one behind the other. -/
def pasted (engine : Engine) (context : Context) (pieces : List TemplatePiece) :
    Outcome (List Char) := do
  let texts ← Outcome.each (piece engine context) pieces
  return texts.flatten

theorem step_template (engine : Engine) (ctx : Context) (parts : List Expr) :
    step engine ctx (.template parts) =
      (do return .text (ofList (← spelled engine ctx parts))) := by
  have joined : ∀ texts : List String,
      ofList (texts.flatMap toList) = join texts := by
    intro texts
    induction texts with
    | nil => rfl
    | cons _ _ ih =>
      rw [flatMap_cons, ofList_append, ih, ofList_toList, join_cons]
  simp only [step, spelled, bind_assoc, pure_bind, joined]

theorem spelled_cons (part : Expr) (parts : List Expr) : spelled engine ctx (part :: parts) =
      (do
        let value ← engine.eval ctx part
        let text ← (value.interpolated : Except Fault String)
        return text.toList ++ (← spelled engine ctx parts)) := by
  simp only [spelled, Outcome.each_cons, bind_assoc, pure_bind, flatMap_cons]

theorem pasted_cons (first : TemplatePiece) (pieces : List TemplatePiece) :
    pasted engine ctx (first :: pieces) =
      (do
        let text ← piece engine ctx first
        return text ++ (← pasted engine ctx pieces)) := by
  simp only [pasted, Outcome.each_cons, bind_assoc, pure_bind, flatten_cons]

/-! ## Cutting a text -/

/-- The engine leaves texts without interpolations as they are. -/
def KeepsPlainTexts (engine : Engine) (context : Context) : Prop :=
  ∀ text : String, Text.cutAt? interpolationMark text.toList = none →
    engine.eval context (.text text) = pure (.text text)

theorem spelled_text (keeps : KeepsPlainTexts engine ctx) {text : String}
    (isPlain : Text.cutAt? interpolationMark text.toList = none) (parts : List Expr) :
    spelled engine ctx (.text text :: parts) =
      (do return text.toList ++ (← spelled engine ctx parts)) := by
  rw [spelled_cons, keeps text isPlain, pure_bind]
  change (pure text : Outcome String) >>= _ = _
  rw [pure_bind]

theorem spelled_literal (keeps : KeepsPlainTexts engine ctx) {text : List Char}
    (isPlain : Text.cutAt? interpolationMark text = none) (parts : List Expr) :
    spelled engine ctx ((if text.isEmpty then [] else [.text (ofList text)]) ++ parts) =
      (do return text ++ (← spelled engine ctx parts)) := by
  by_cases isEmpty : text.isEmpty
  · rw [List.isEmpty_iff.mp isEmpty]
    simp
  · have isPlainText : Text.cutAt? interpolationMark (ofList text).toList = none := by
      rwa [toList_ofList]
    rw [if_neg isEmpty, singleton_append, spelled_text keeps isPlainText, toList_ofList]

/-- The parts that a text is read as and the pieces that it is cut into leave the same. -/
theorem spelled_eq_pasted (keeps : KeepsPlainTexts engine ctx)
    {fuel : Nat} {content : List Char} {parts : List Expr}
    (isRead : interpolationParts Expr.parse fuel content = .ok parts) (alike :
      ∀ inner, .source inner ∈ templatePieces fuel content →
        ∀ embedded, Expr.parse inner = .ok embedded →
          ∀ value, (engine.eval ctx embedded).result = .ok value →
            value.interpolated = value.embedded) :
    spelled engine ctx parts = pasted engine ctx (templatePieces fuel content) := by
  induction fuel generalizing content parts with
  | zero => cases isRead
  | succ _ ih =>
    rw [interpolationParts] at isRead
    rw [templatePieces] at alike ⊢
    cases cut : Text.cutAt? interpolationMark content with
    | none =>
      simp only [cut, Except.ok.injEq] at isRead
      have literal := spelled_literal keeps cut []
      rw [append_nil, isRead] at literal
      rw [literal]
      rfl
    | some found =>
      obtain ⟨_, opened⟩ := found
      obtain ⟨_, isPlain⟩ := Text.cutAt?_eq_some (by simp [interpolationMark]) cut
      simp only [cut] at isRead alike ⊢
      cases closed : closeParens 1 opened with
      | none => simp [closed] at isRead
      | some pair =>
        obtain ⟨inner, _⟩ := pair
        simp only [closed, except_bind_eq_ok, Option.getD_some] at isRead alike ⊢
        obtain ⟨embedded, embedding, _, others, isWhole⟩ := isRead
        obtain rfl := Except.ok.inj isWhole
        have further := ih others fun deeper mem => alike deeper (.tail _ (.tail _ mem))
        have sameValue := alike inner (.tail _ (.head _)) embedded embedding
        rw [spelled_literal keeps isPlain, pasted_cons, pasted_cons, spelled_cons, further]
        simp only [piece, embedding, bind_assoc]
        apply Outcome.bind_congr_of_result
        intro value evals
        rw [sameValue value evals]
        simp only [pure_bind]

end Eval

/-! ## Both ways -/

theorem Engine.keepsPlainTexts (setting : Setting) (depth : Nat) (ctx : Context) :
    Eval.KeepsPlainTexts (upTo setting (depth + 1)) ctx :=
  fun _ isPlain => Eval.step_text_of_plain isPlain (upTo setting depth) ctx

namespace Expr

/-- Evaluate an expression as a part of another one, which takes a level of the depth. -/
def evalNested (setting : Setting) (context : Context) (expr : Expr) : Outcome Value :=
  (Engine.upTo setting (Engine.depth - 1)).eval context expr

/-- What is nested in a text is read like any source. -/
theorem parseInterpolated_eq (content : List Char) :
    parseInterpolated content = interpolated parse content := by
  have same :
      interpolationParts (parseWithin (content.length + 1)) (content.length + 1) content =
        interpolationParts parse (content.length + 1) content := by
    refine (settlesAlike_interpolationParts ?_ (Nat.lt_succ_self _)).same
    intro inner isLess
    have bounded := Text.asciiCount_le_length content
    exact settlesAlike_parse (by omega)
  rw [parseInterpolated, interpolated, interpolated, same]

theorem interpolationParts_of_parseInterpolated {content : List Char}
    (isRead : parseInterpolated content = .ok expr) :
    ∃ parts,
      interpolationParts parse (content.length + 1) content = .ok parts ∧
        (parts = [] ∧ expr = .text "" ∨ (∃ value, parts = [.text value] ∧ expr = .text value) ∨
          expr = .template parts) := by
  rw [parseInterpolated_eq, interpolated, except_bind_eq_ok] at isRead
  obtain ⟨parts, partsRead, isWhole⟩ := isRead
  refine ⟨parts, partsRead, ?_⟩
  split at isWhole
  · exact .inl ⟨rfl, (Except.ok.inj isWhole).symm⟩
  · exact .inr (.inl ⟨_, rfl, (Except.ok.inj isWhole).symm⟩)
  · exact .inr (.inr (Except.ok.inj isWhole).symm)

/-- A text that can be read with its interpolations leaves the same when it is evaluated part by
part and when it is left to be cut during the evaluation, unless one of the expressions in it stands
for a list or an object. -/
theorem eval_parseInterpolated (setting : Setting) (context : Context) {text : String} {expr : Expr}
    (isRead : parseInterpolated text.toList = .ok expr) (scalar :
      ∀ inner, .source inner ∈ TemplatePiece.ofText text →
        ∀ embedded, parse inner = .ok embedded →
          ∀ value, (embedded.evalNested setting context).result = .ok value →
            value.isList = false ∧ value.isObject = false) :
    expr.eval setting context = (Expr.text text).eval setting context := by
  obtain ⟨parts, partsRead, shape⟩ := interpolationParts_of_parseInterpolated isRead
  let engine := Engine.upTo setting (Engine.depth - 1)
  have keeps : Eval.KeepsPlainTexts engine context :=
    Engine.keepsPlainTexts setting (Engine.depth - 2) context
  have pieces :
      Eval.pasted engine context (TemplatePiece.ofText text) =
        Eval.spelled engine context parts := by
    refine (Eval.spelled_eq_pasted keeps partsRead ?_).symm
    intro inner member embedded embedding value evals
    obtain ⟨notList, notObject⟩ := scalar inner member embedded embedding value evals
    cases value with
    | list => cases notList
    | object => cases notObject
    | _ => rfl
  have isCut :
      (Expr.text text).eval setting context =
        (do return .text (String.ofList (← Eval.spelled engine context parts))) := by
    rw [← pieces]
    change Eval.step engine context (.text text) = _
    simp only [Eval.step, Eval.template, Eval.pasted, bind_assoc, pure_bind]
  rw [isCut]
  rcases shape with ⟨rfl, rfl⟩ | ⟨value, rfl, rfl⟩ | rfl
  · exact Eval.step_text_of_plain rfl _ _
  · have isWritten :=
      isWritten_interpolationParts (fun _ _ => isWritten_of_parse) partsRead _
        (List.mem_singleton_self _)
    have isPlain := isWritten.here
    have onlyText :
        Eval.spelled engine context [.text value] = pure (value.toList ++ []) :=
      Eval.spelled_text keeps isPlain []
    rw [onlyText, List.append_nil, pure_bind, String.ofList_toList]
    exact Eval.step_text_of_plain isPlain _ _
  · exact Eval.step_template _ _ _

/-- A greeting whose name is a variable. -/
theorem eval_parseInterpolated_greeting :
    Expr.eval ⟨⟨"", 0⟩, []⟩ ⟨.null, [("name", .text "Ada")], 0⟩
        (.template [.text "Hi ", .name "name" ⟨1, 1⟩, .text "!"]) =
      Expr.eval ⟨⟨"", 0⟩, []⟩ ⟨.null, [("name", .text "Ada")], 0⟩ (.text "Hi $(name)!") := by
  have isRead :
      parseInterpolated "Hi $(name)!".toList =
        .ok (.template [.text "Hi ", .name "name" ⟨1, 1⟩, .text "!"]) := by
    cbv
  have pieces :
      TemplatePiece.ofText "Hi $(name)!" =
        [.plain "Hi ".toList, .source "name".toList, .plain "!".toList] := by
    cbv
  have isName : parse "name".toList = .ok (.name "name" ⟨1, 1⟩) := by cbv
  refine eval_parseInterpolated _ _ isRead ?_
  intro inner member embedded embedding value evals
  rw [pieces] at member
  simp only [List.mem_cons, List.not_mem_nil, reduceCtorEq, TemplatePiece.source.injEq, false_or,
    or_false] at member
  subst member
  rw [isName] at embedding
  cases embedding
  have found := evals
  cases found
  exact ⟨rfl, rfl⟩

end Expr

end Weave
