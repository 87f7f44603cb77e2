import Weave.Proofs.Eval.Engine
import Weave.Proofs.Expr.Pasted
import Weave.Proofs.Session.Header

namespace Weave

open Context

/-!
# What a bound name denotes

A name is bound by a parameter, by a case of a match, or by a variable or a function of a header.
The innermost binding of a name is what the name denotes, unless a built-in function has the name:
built-in functions are found before any binding.
-/

variable {name : String}

/-- What a name denotes at a position where it is bound to a value. -/
def Context.denoted (name : String) (position : Position) (value : Value) : Value :=
  if name = "_binary_plus" then .function (.plus position.line position.column)
  else
    match Builtin.named? name with
    | some builtin => .function (.builtin builtin)
    | none => value

namespace Context

/-- A binding is honoured exactly if no built-in function has its name. -/
theorem denoted_eq_iff (name : String) : (∀ pos value, denoted name pos value = value) ↔
      name ≠ "_binary_plus" ∧ Builtin.named? name = none := by
  constructor
  · intro honoured
    have onNull := honoured .nowhere .null
    unfold denoted at onNull
    split at onNull
    · cases onNull
    · rename_i notPlus
      refine ⟨notPlus, ?_⟩
      cases isBuiltin : Builtin.named? name with
      | none => rfl
      | some =>
        rw [isBuiltin] at onNull
        cases onNull
  · rintro ⟨notPlus, notBuiltin⟩ _ _
    simp [denoted, notPlus, notBuiltin]

/-- A name that is bound in a context denotes what its binding says, or a built-in function. -/
theorem resolve_of_bound {ctx : Context} (isFree : name ≠ "payload" ∧ name ≠ "vars")
    (isBound : ctx.bindings.find? name = some value) (pos : Position) :
    ctx.resolve name pos = pure (denoted name ⟨pos.line + ctx.lineOffset, pos.column⟩ value) := by
  unfold resolve denoted
  by_cases isPlus : name = "_binary_plus"
  · simp [isPlus]
  · cases isBuiltin : Builtin.named? name with
    | some => simp [isFree, isPlus]
    | none => simp [isFree, isPlus, isBound]

end Context

/-! ## Parameters -/

/-- A word is read as a name; the word of a conditional starts something else. -/
theorem Expr.parse_word (isWord : Token.IsWord name.toList) (notIf : name ≠ "if") :
    ∃ pos, Expr.parse name.toList = .ok (.name name pos) := by
  have scanned : Token.Fronts (Token.Makes (.name name .nowhere)) name.toList [] :=
    (Token.Fronts.word isWord (by simp)).mono fun _ isOne => .word isOne notIf
  obtain ⟨expr, isRead, viewed⟩ := Expr.parse_of_makes scanned
  cases expr with
  | name word pos =>
    obtain rfl : word = name := by simpa [Expr.placeless] using viewed
    exact ⟨pos, isRead⟩
  | _ => simp [Expr.placeless] at viewed

theorem Expr.parse_identity (isWord : Token.IsWord name.toList) (notIf : name ≠ "if") : ∃ pos,
      Expr.parse ("(" ++ name ++ ") -> " ++ name).toList =
        .ok (.lambda [.plain name] (.name name pos)) := by
  obtain ⟨_, isRead⟩ := Expr.parse_word isWord notIf
  have areWords : ∀ word ∈ [name], Token.IsWord word.toList := by simpa using isWord
  obtain ⟨inner, lambdaRead, same⟩ := Expr.parse_lambdaText areWords isRead
  have isText :
      ("(" ++ name ++ ") -> " ++ name).toList = Expr.lambdaText [name] name.toList := by
    simp [Expr.lambdaText, List.intercalate]
  rw [isText, lambdaRead]
  cases inner with
  | name word pos =>
    obtain rfl : word = name := by simpa [Expr.placeless] using same
    exact ⟨pos, rfl⟩
  | _ => simp [Expr.placeless] at same

theorem Token.IsWord.ne_placeholder (isWord : Token.IsWord name.toList) (level : Nat) :
    name ≠ placeholderName level := by
  rintro rfl
  unfold placeholderName at isWord
  split at isWord
  · exact absurd isWord.1 (by decide)
  · exact absurd isWord.1 (by decide)

/-- Applied to a value, the lambda returns what its parameter denotes. -/
theorem Function.apply_identity (isWord : Token.IsWord name.toList)
    (isFree : name ≠ "payload" ∧ name ≠ "vars") (setting : Setting) (pos : Position)
    (captured : Bindings) (payload value : Value) :
    Function.apply setting (.lambda [.plain name] (.name name pos) captured payload) [value] =
      pure (denoted name pos value) := by
  have isBound : (captured.set name value).find? name = some value := by
    rw [Bindings.find?_set, if_pos rfl]
  have locals :
      Call.standFor 2 [Parameter.plain name][1]?
          (Call.standFor 1 [Parameter.plain name][0]? (captured.set name value)) =
        (captured.set name value).setNew "$" value := by
    simp [Call.standFor, Parameter.plain, isBound, placeholderName]
  have notSign : name ≠ "$" := isWord.ne_placeholder 1
  have stillBound : ((captured.set name value).setNew "$" value).find? name = some value := by
    rw [Bindings.find?_setNew_of_ne notSign, isBound]
  calc
    Function.apply setting (.lambda [.plain name] (.name name pos) captured payload) [value]
    _ = resolve ⟨payload, (captured.set name value).setNew "$" value, 0⟩ name pos := by
      rw [← locals]
      rfl
    _ = pure (denoted name pos value) := resolve_of_bound isFree stillBound pos

/-! ## Cases -/

theorem Engine.eval_binding_case (isWord : Token.IsWord name.toList)
    (isFree : name ≠ "payload" ∧ name ≠ "vars") (setting : Setting) (depth : Nat)
    (ctx : Context) (subject : Expr) (pos : Position) (others : List (MatchCase Expr)) :
    (Engine.upTo setting (depth + 2)).eval ctx
        (.matching subject (⟨some ⟨some name, none, none⟩, .name name pos⟩ :: others)) =
      (Engine.upTo setting (depth + 1)).eval ctx subject >>= fun value =>
        pure (denoted name pos value) := by
  have notEmpty : name ≠ "" := by
    rintro rfl
    exact absurd isWord.1 (by decide)
  refine bind_congr fun value => ?_
  have inner :
      Eval.bound ctx (some name) value = ⟨ctx.payload, ctx.bindings.set name value, 0⟩ := by
    unfold Eval.bound
    split <;> simp_all
  have isBound : (ctx.bindings.set name value).find? name = some value := by
    rw [Bindings.find?_set, if_pos rfl]
  rw [Eval.cases, inner]
  exact resolve_of_bound isFree isBound pos

/-! ## All bindings -/

/-- The innermost binding of a name wins, unless a built-in function has the name.  This holds for
the parameter of a lambda, for the name that a case of a match binds, and in the body of a script
for the variables and the functions of its header. -/
theorem Context.innermost_binding_unless_builtin {name : String} (isWord : Token.IsWord name.toList)
    (isFree : name ≠ "payload" ∧ name ≠ "vars") :
    ((∀ position value, denoted name position value = value) ↔
        name ≠ "_binary_plus" ∧ Builtin.named? name = none) ∧
      (name ≠ "if" →
        ∃ lambda position,
          Expr.parse ("(" ++ name ++ ") -> " ++ name).toList = .ok lambda ∧
            ∀ setting ctx value, ∃ callee,
              lambda.eval setting ctx = pure (.function callee) ∧
                callee.apply setting [value] = pure (denoted name position value)) ∧
      (∀ setting depth ctx subject position others,
        (Engine.upTo setting (depth + 2)).eval ctx
            (.matching subject (⟨some ⟨some name, none, none⟩, .name name position⟩ :: others)) =
          (Engine.upTo setting (depth + 1)).eval ctx subject >>= fun value =>
            pure (denoted name position value)) ∧
      ∀ session ambient imported header job ctx,
        (Session.bodyContext session ambient imported header job).result = .ok ctx →
          (∀ body, (session.runScript ambient imported ⟨header, body⟩ job).result =
              (session.bodyValue ambient job body ctx >>= fun value => do
                let finished ← (Session.delivered header job value : Except Fault Value)
                return (finished, ⟨session.frames ++ [⟨ctx.payload, ctx.bindings⟩]⟩) :
                  Outcome (Value × Session)).result) ∧
          (∀ front back expr, header.bindings = front ++ ⟨name, expr⟩ :: back →
            (∀ other ∈ back, name ≠ other.name) →
              ∃ before value,
                (expr.eval (session.setting ambient ⟨job.payload, before⟩)
                    ⟨job.payload, before, 0⟩).result = .ok value ∧
                  ∀ position,
                    ctx.resolve name position =
                      pure (denoted name
                        ⟨position.line + ctx.lineOffset, position.column⟩ value)) ∧
          ((∃ declaration ∈ header.functions, declaration.name = name) →
            (∀ declaration ∈ header.bindings, name ≠ declaration.name) →
            (∀ value, (job.bindings.setAll imported).find? name = some value →
              value.isDeclared = false) →
              ∀ position,
                ctx.resolve name position =
                  pure (denoted name ⟨position.line + ctx.lineOffset, position.column⟩
                    (.function (FunctionDecl.together session.frames.length
                      (header.functions.filter fun declaration =>
                        declaration.name == name))))) := by
  refine ⟨denoted_eq_iff name, fun notIf => ?_, ?_, ?_⟩
  · obtain ⟨position, isRead⟩ := Expr.parse_identity isWord notIf
    refine ⟨_, position, isRead, fun setting ctx value => ?_⟩
    exact ⟨_, rfl, Function.apply_identity isWord isFree setting position _ _ value⟩
  · exact fun setting depth ctx subject position others =>
      Engine.eval_binding_case isWord isFree setting depth ctx subject position others
  · intro session ambient imported header job ctx isEntered
    have entered := isEntered
    rw [Session.bodyContext, Outcome.result_bind_eq_ok] at entered
    obtain ⟨_, declared, isContext⟩ := entered
    obtain rfl := Except.ok.inj isContext
    refine ⟨fun body => ?_, fun front back expr isDeclared isLast => ?_,
      fun isDeclared noVariable isNew => ?_⟩
    · rw [Session.runScript_eq]
      exact Outcome.result_bind_of_ok isEntered _
    · rw [isDeclared, Session.declareVariables_append, Outcome.result_bind_eq_ok] at declared
      obtain ⟨before, _, restDeclared⟩ := declared
      rw [Session.declareVariables, Outcome.result_bind_eq_ok] at restDeclared
      obtain ⟨value, evals, backDeclared⟩ := restDeclared
      refine ⟨before, value, evals, resolve_of_bound isFree ?_⟩
      rw [Session.find?_of_declareVariables isLast backDeclared, Bindings.find?_set, if_pos rfl]
    · refine resolve_of_bound isFree ?_
      rw [Session.find?_of_declareVariables noVariable declared,
        Session.find?_declareFunctions isNew]
      obtain ⟨decl, mem, isNamed⟩ := isDeclared
      have inside : decl ∈ header.functions.filter fun decl => decl.name == name :=
        List.mem_filter.mpr ⟨mem, by simp [isNamed]⟩
      cases isSome : header.functions.filter fun decl => decl.name == name with
      | cons => rfl
      | nil =>
        rw [isSome] at inside
        cases inside

/-- A header that declares one variable. -/
def Header.single (name : String) (value : Expr) : Header :=
  { Header.plain with bindings := [⟨name, value⟩] }

/-- A parameter `total` is honoured; a variable `upper` is not. -/
theorem Context.innermost_binding_total_upper : (Token.IsWord "total".toList ∧
      ∃ lambda,
        Expr.parse "(total) -> total".toList = .ok lambda ∧
          ∀ setting ctx value, ∃ callee,
            lambda.eval setting ctx = pure (.function callee) ∧
              callee.apply setting [value] = pure value) ∧
      Token.IsWord "upper".toList ∧
        ∃ ctx,
          (Session.fresh.bodyContext ⟨"", 0⟩ [] (.single "upper" .null)
              ⟨"", .null, [], false⟩).result = .ok ctx ∧
            ctx.bindings.find? "upper" = some .null ∧
            ∀ position, ctx.resolve "upper" position = pure (.function (.builtin .upper)) := by
  have totalIsWord : Token.IsWord "total".toList := by decide
  have upperIsWord : Token.IsWord "upper".toList := by decide
  refine ⟨⟨totalIsWord, ?_⟩, upperIsWord, ?_⟩
  · obtain ⟨honoured, ofLambda, _⟩ :=
      innermost_binding_unless_builtin totalIsWord ⟨by decide, by decide⟩
    have isHonoured := honoured.mpr ⟨by decide, by decide⟩
    obtain ⟨lambda, _, isRead, applied⟩ := ofLambda (by decide)
    refine ⟨lambda, isRead, fun setting ctx value => ?_⟩
    obtain ⟨callee, evals, result⟩ := applied setting ctx value
    exact ⟨callee, evals, by rw [result, isHonoured]⟩
  · obtain ⟨_, _, _, ofHeader⟩ :=
      innermost_binding_unless_builtin upperIsWord ⟨by decide, by decide⟩
    obtain ⟨_, ofVariable, _⟩ :=
      ofHeader .fresh ⟨"", 0⟩ [] (.single "upper" .null) ⟨"", .null, [], false⟩
        ⟨.null, [("upper", .null)], 0⟩ rfl
    obtain ⟨_, _, _, denotes⟩ := ofVariable [] [] .null rfl (by simp)
    exact ⟨_, rfl, rfl, denotes⟩

end Weave
