import Weave.Proofs.Session.Header

open List

namespace Weave

/-!
# Which of several functions is called

The functions that a header declares under one name are tried in order.  One is taken as soon as the
arguments that it has parameters for are of the right types, whether or not it has a parameter for
each of them.  So the first function that suits the arguments is called unless one in front of it
takes them without suiting them, and then the number of arguments is wrong.
-/

variable {decl : FunctionDecl} {arguments : List Value}

/-- There are as many arguments as parameters, and each is of the type its parameter asks for. -/
def FunctionDecl.Suits (declaration : FunctionDecl) (arguments : List Value) : Prop :=
  List.Forall₂
    (fun (parameter : Parameter Expr) (argument : Value) => argument.fits parameter.type? = true)
    declaration.parameters arguments

namespace Call

/-! ## Choosing -/

theorem suits_iff : decl.Suits arguments ↔
      decl.parameters.length = arguments.length ∧ accepts decl arguments := by
  rw [FunctionDecl.Suits, forall₂_iff_zip, accepts, all_eq_true]
  exact and_congr_right fun _ =>
    ⟨fun fits pair mem => fits mem, fun fits _ _ mem => fits _ mem⟩

/-- The functions of one header that stand under one name are tried in order. -/
theorem step_together {decls : List FunctionDecl} (setting : Setting) (engine : Engine)
    (isFirst : decls.find? (accepts · arguments) = some decl) :
    step setting engine (FunctionDecl.together index decls) arguments =
      inFrame setting engine index decl arguments := by
  have chosen :
      choose? (decls.map fun decl => (index, decl)) arguments = some (index, decl) := by
    rw [choose?, find?_map]
    have found :
        decls.find? ((fun alt : Nat × FunctionDecl =>
          accepts alt.2 arguments) ∘ fun decl => (index, decl)) = some decl :=
      isFirst
    rw [found]
    rfl
  cases decls with
  | nil => cases isFirst
  | cons _ others =>
    cases others with
    | nil =>
      obtain rfl := mem_singleton.mp (mem_of_find?_eq_some isFirst)
      rfl
    | cons => simp only [FunctionDecl.together, step, chosen]

/-! ## Wrong numbers of arguments -/

variable (engine : Engine) (callee : Callee) (payload : Value)

theorem bind_of_missing {param : Parameter Expr} (isBehind : params[arguments.length]? = some param)
    (noDefault : param.fallback = none) (locals : Bindings) :
    bind engine callee payload locals params arguments =
      .fault (.mismatch (.missingArgument param.name callee)) := by
  induction arguments generalizing locals params with
  | nil =>
    cases params with
    | nil => cases isBehind
    | cons first =>
      obtain rfl : first = param := by simpa using isBehind
      rw [bind, noDefault]
      rfl
  | cons _ _ ih =>
    cases params with
    | nil => cases isBehind
    | cons => exact ih (by simpa using isBehind) _

theorem declared_of_missing (frame : Frame) {param : Parameter Expr}
    (isBehind : decl.parameters[arguments.length]? = some param)
    (noDefault : param.fallback = none) :
    declared engine frame decl arguments =
      .fault (.mismatch (.missingArgument param.name .function)) := by
  have notMore : ¬ arguments.length > decl.parameters.length := by
    have isLess := (List.getElem?_eq_some_iff.mp isBehind).1
    omega
  rw [declared, bindAll, if_neg notMore, bind_of_missing engine _ _ isBehind noDefault]
  rfl

end Call

/-! ## Calling -/

/-- What the functions of a header under one name do with arguments that one of them suits.  The
first of these is called unless the arguments are accepted by one in front of it, which does not
have as many parameters; a call of that one fails, unless its further parameters have defaults. -/
theorem Session.apply_overloads {name : String} {bindings : Bindings}
    (isNew : ∀ value, bindings.find? name = some value → value.isDeclared = false)
    {functions front back : List FunctionDecl} {chosen : FunctionDecl} (areDeclared :
      (functions.filter fun declaration => declaration.name == name) = front ++ chosen :: back)
    {arguments : List Value} (suits : chosen.Suits arguments)
    (isFirst : ∀ declaration ∈ front, ¬ declaration.Suits arguments) (session : Session)
    (ambient : Ambient) (frame : Frame) :
    ∃ callee,
      (functions.foldl (declareFunction session.frames.length) bindings).find? name =
          some (.function callee) ∧
        (front.find? (Call.accepts · arguments) = none →
          callee.apply (session.setting ambient frame) arguments =
            Function.apply (session.setting ambient frame)
              (.declared session.frames.length chosen) arguments) ∧
        ∀ early, front.find? (Call.accepts · arguments) = some early →
          callee.apply (session.setting ambient frame) arguments =
              Function.apply (session.setting ambient frame)
                (.declared session.frames.length early) arguments ∧
            early.parameters.length ≠ arguments.length ∧
            (early.parameters.length < arguments.length →
              callee.apply (session.setting ambient frame) arguments =
                .fault (.mismatch (.tooManyArguments .function))) ∧
            ∀ parameter, early.parameters[arguments.length]? = some parameter →
              parameter.fallback = none →
                callee.apply (session.setting ambient frame) arguments =
                  .fault (.mismatch (.missingArgument parameter.name .function)) := by
  obtain ⟨_, chosenAccepts⟩ := Call.suits_iff.mp suits
  have isFrame : (session.setting ambient frame).frames[session.frames.length]? = some frame := by
    simp [setting]
  refine ⟨FunctionDecl.together session.frames.length (front ++ chosen :: back), ?_, ?_, ?_⟩
  · rw [find?_declareFunctions isNew, areDeclared]
    cases front <;> rfl
  · intro noneEarly
    have found : (front ++ chosen :: back).find? (Call.accepts · arguments) = some chosen := by
      simp [List.find?_append, noneEarly, chosenAccepts]
    exact Call.step_together _ _ found
  · intro early isEarly
    have found : (front ++ chosen :: back).find? (Call.accepts · arguments) = some early := by
      rw [List.find?_append, isEarly, Option.some_or]
    have earlyAccepts : Call.accepts early arguments = true :=
      @List.find?_some _ (Call.accepts · arguments) _ _ isEarly
    have called (engine : Engine) :
        Call.step (session.setting ambient frame) engine
            (FunctionDecl.together session.frames.length (front ++ chosen :: back)) arguments =
          Call.declared engine frame early arguments := by
      rw [Call.step_together _ _ found, Call.inFrame, isFrame]
    refine ⟨Call.step_together _ _ found, fun sameNumber => ?_, fun tooMany => ?_,
      fun parameter isBehind noDefault => ?_⟩
    · exact isFirst early (List.mem_of_find?_eq_some isEarly)
        (Call.suits_iff.mpr ⟨sameNumber, earlyAccepts⟩)
    · refine (called _).trans ?_
      rw [Call.declared, Call.bindAll, if_pos tooMany]
      rfl
    · exact (called _).trans (Call.declared_of_missing _ frame isBehind noDefault)

/-- A function without types whose body is null. -/
def FunctionDecl.empty (parameters : List String) : FunctionDecl :=
  ⟨"f", parameters.map fun name => ⟨name, none, none⟩, .null, none⟩

/-- Two arguments suit the second function, but the first one takes them. -/
theorem Session.apply_overloads_unary_first : (FunctionDecl.empty ["a", "b"]).Suits [.null, .null] ∧
      ¬ (FunctionDecl.empty ["a"]).Suits [.null, .null] ∧
      ∃ callee,
        ([FunctionDecl.empty ["a"], FunctionDecl.empty ["a", "b"]].foldl
            (declareFunction Session.fresh.frames.length) []).find? "f" =
          some (.function callee) ∧
        callee.apply (Session.fresh.setting ⟨"", 0⟩ ⟨.null, []⟩) [.null, .null] =
          .fault (.mismatch (.tooManyArguments .function)) := by
  have suits : (FunctionDecl.empty ["a", "b"]).Suits [.null, .null] := .cons rfl (.cons rfl .nil)
  have notSuits : ¬ (FunctionDecl.empty ["a"]).Suits [.null, .null] := by
    rw [Call.suits_iff]
    rintro ⟨sameNumber, _⟩
    cases sameNumber
  have isNew : ∀ value, Bindings.find? [] "f" = some value → value.isDeclared = false := by
    intro value found
    cases found
  obtain ⟨callee, found, _, ofEarly⟩ :=
    @Session.apply_overloads "f" [] isNew [.empty ["a"], .empty ["a", "b"]] [.empty ["a"]] [] _ rfl
      _ suits (List.forall_mem_singleton.mpr notSuits) .fresh ⟨"", 0⟩ ⟨.null, []⟩
  obtain ⟨_, _, ofTooMany, _⟩ := ofEarly (FunctionDecl.empty ["a"]) rfl
  exact ⟨suits, notSuits, callee, found, ofTooMany (by decide)⟩

end Weave
