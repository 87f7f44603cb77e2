import Weave.Eval.Call
import Weave.Proofs.Exchange.Builtins
import Weave.Proofs.Expr.Lookups

namespace Weave

open List Bindings

/-!
# What an evaluation sees

A function that was made somewhere holds all variables of that place, but a sight may show fewer of
them, or show them in another order, as long as what the function asks for is found.  Two tables of
variables are alike for some lookups if they show the same.
-/

variable {parameters : List (Parameter Expr)} {body : Expr} {captured : Bindings}
  {callee : Function}

/-- A variable whose functions are exchanged. -/
def onVariable (change : Function → Function) (binding : String × Value) : String × Value :=
  (binding.1, binding.2.onFunctions change)

/-- Whether a function holds no variables. -/
def Function.holdsNone : Function → Bool
  | .lambda .. | .implicit .. => false
  | _ => true

/-- Tables that show the same for some lookups find the same, and go on to do so when a variable is
set to the same value in both. -/
structure Arranges (arrange : List Lookup → Bindings → Bindings) : Prop where
  fewer :
    ∀ {fewer lookups : List Lookup} {left right : Bindings}, fewer ⊆ lookups →
      arrange lookups left = arrange lookups right → arrange fewer left = arrange fewer right
  found :
    ∀ {name : String} {lookups : List Lookup} {left right : Bindings}, .named name ∈ lookups →
      arrange lookups left = arrange lookups right → left.find? name = right.find? name
  whole :
    ∀ {lookups : List Lookup} {left right : Bindings}, .all ∈ lookups →
      arrange lookups left = arrange lookups right → left = right
  set :
    ∀ {lookups : List Lookup} {left right : Bindings} (name : String) (value : Value),
      arrange lookups left = arrange lookups right →
        arrange (.named name :: lookups) (left.set name value) =
          arrange (.named name :: lookups) (right.set name value)
  setNew :
    ∀ {lookups : List Lookup} {left right : Bindings} (name : String) (value : Value),
      arrange lookups left = arrange lookups right →
        arrange lookups (left.setNew name value) = arrange lookups (right.setNew name value)

/-- What is seen of functions and their variables, which functions there are, and which expressions
and functions of headers may be evaluated. -/
structure Sight extends Likeness where
  arrange : List Lookup → Bindings → Bindings
  fine : Expr → Prop
  headers : Nat → FunctionDecl → Prop
  arranges : Arranges arrange
  change_lambda :
    ∀ parameters body captured payload,
      change (.lambda parameters body captured payload) =
        .lambda parameters body
          (arrange (Expr.lookups (.lambda parameters body)) (captured.map (onVariable change)))
          (payload.onFunctions change)
  change_implicit :
    ∀ body captured payload usesSecond,
      change (.implicit body captured payload usesSecond) =
        .implicit body (arrange body.lookups (captured.map (onVariable change)))
          (payload.onFunctions change) usesSecond
  change_of_holdsNone : ∀ {callee : Function}, callee.holdsNone = true → change callee = callee
  holds_builtin : ∀ builtin, holds (.builtin builtin)
  holds_plus : ∀ line column, holds (.plus line column)
  holds_lambda :
    ∀ {parameters body captured payload},
      holds (.lambda parameters body captured payload) ↔
        fine (.lambda parameters body) ∧ AllUnder holds captured ∧ payload.All holds
  holds_implicit :
    ∀ {body captured payload usesSecond},
      holds (.implicit body captured payload usesSecond) ↔
        fine body ∧ AllUnder holds captured ∧ payload.All holds
  holds_declared : ∀ {index declaration}, holds (.declared index declaration) →
    headers index declaration
  holds_overloaded : ∀ {alternatives}, holds (.overloaded alternatives) →
    ∀ alternative ∈ alternatives, headers alternative.1 alternative.2
  holds_dispatch : ∀ {alternatives}, holds (.dispatch alternatives) →
    ∀ alternative ∈ alternatives, holds alternative.2
  fine_child : ∀ {child expr : Expr}, Expr.IsChild child expr → fine expr → fine child
  fine_header : ∀ {index declaration}, headers index declaration →
    fine (.lambda declaration.parameters declaration.body)
  fine_parsed : ∀ {source : List Char} {expr : Expr}, Expr.parse source = .ok expr → fine expr

/-! ## Tables of variables -/

namespace Bindings

variable (change : Function → Function)

theorem find?_onVariable (bindings : Bindings) (name : String) :
    find? (bindings.map (onVariable change)) name =
      (bindings.find? name).map (Value.onFunctions change) := by
  induction bindings with
  | nil => rfl
  | cons binding _ ih =>
    obtain ⟨_, _⟩ := binding
    simp only [find?, map_cons, onVariable, lookup_cons_eq_ite] at *
    split
    · rfl
    · exact ih

theorem set_onVariable (bindings : Bindings) (name : String) (value : Value) :
    (bindings.set name value).map (onVariable change) =
      set (bindings.map (onVariable change)) name (value.onFunctions change) := by
  induction bindings with
  | nil => rfl
  | cons _ _ ih =>
    simp only [set, setPair, map_cons, onVariable] at *
    split
    · rfl
    · rw [map_cons, ih]
      rfl

theorem setNew_onVariable (bindings : Bindings) (name : String) (value : Value) :
    (bindings.setNew name value).map (onVariable change) =
      setNew (bindings.map (onVariable change)) name (value.onFunctions change) := by
  unfold setNew
  rw [find?_onVariable]
  cases bindings.find? name with
  | none => exact set_onVariable change bindings name value
  | some => rfl

theorem toObject_onFunctions (bindings : Bindings) : bindings.toObject.onFunctions change =
      toObject (bindings.map (onVariable change)) := by
  simp [toObject, Value.onFunctions, onEntryFunctions, onVariable]

end Bindings

namespace Sight

variable {sight : Sight}

/-- What the lookups show of a table. -/
def view (sight : Sight) (lookups : List Lookup) (bindings : Bindings) : Bindings :=
  sight.arrange lookups (bindings.map (onVariable sight.change))

/-- The tables show the same for the lookups. -/
abbrev Tables (sight : Sight) (lookups : List Lookup) : Bindings → Bindings → Prop :=
  SameBy (sight.view lookups) (AllUnder sight.holds)

section Tables

variable {lookups : List Lookup} {left right : Bindings} (alike : sight.Tables lookups left right)

include alike

theorem Tables.fewer {fewer : List Lookup} (isSubset : fewer ⊆ lookups) :
    sight.Tables fewer left right :=
  ⟨sight.arranges.fewer isSubset alike.seen, alike.left, alike.right⟩

/-- Tables that show everything are alike for all lookups. -/
theorem Tables.all (isAll : .all ∈ lookups) (others : List Lookup) :
    sight.Tables others left right :=
  ⟨congrArg (sight.arrange others) (sight.arranges.whole isAll alike.seen), alike.left, alike.right⟩

/-- A variable that is asked for is in neither table or looks the same. -/
theorem Tables.none_or_some (isAsked : .named name ∈ lookups) :
    left.find? name = none ∧ right.find? name = none ∨
      ∃ found other,
        left.find? name = some found ∧ right.find? name = some other ∧ sight.Same found other := by
  have seen := sight.arranges.found isAsked alike.seen
  rw [find?_onVariable, find?_onVariable] at seen
  cases inLeft : left.find? name with
  | none => exact .inl ⟨rfl, by simpa [inLeft] using seen.symm⟩
  | some found =>
    cases inRight : right.find? name with
    | none => simp [inLeft, inRight] at seen
    | some other =>
      refine .inr ⟨found, other, rfl, rfl, ?_, alike.left.lookup inLeft, alike.right.lookup inRight⟩
      simpa [inLeft, inRight] using seen

variable (name : String) {value other : Value} (same : sight.Same value other)

include same

/-- A variable that is set to what looks the same may be looked up then. -/
theorem Tables.set :
    sight.Tables (.named name :: lookups) (left.set name value) (right.set name other) := by
  refine ⟨?_, alike.left.set name same.left, alike.right.set name same.right⟩
  unfold view
  rw [set_onVariable, set_onVariable, same.seen]
  exact sight.arranges.set _ _ alike.seen

theorem Tables.setNew :
    sight.Tables lookups (left.setNew name value) (right.setNew name other) := by
  refine ⟨?_, alike.left.setNew name same.left, alike.right.setNew name same.right⟩
  unfold view
  rw [setNew_onVariable, setNew_onVariable, same.seen]
  exact sight.arranges.setNew _ _ alike.seen

omit same in
theorem Tables.toObject (isAll : .all ∈ lookups) : sight.Same left.toObject right.toObject := by
  refine ⟨?_, alike.left.toObject, alike.right.toObject⟩
  rw [toObject_onFunctions, toObject_onFunctions,
    sight.arranges.whole isAll alike.seen]

end Tables

/-! ## Functions that may stand for each other -/

theorem sameFunction_lambda (isFine : sight.fine (.lambda parameters body))
    (alike : sight.Tables (Expr.lookups (.lambda parameters body)) captured others)
    (same : sight.Same payload other) :
    sight.SameFunction (.lambda parameters body captured payload)
      (.lambda parameters body others other) := by
  refine ⟨?_, sight.holds_lambda.mpr ⟨isFine, alike.left, same.left⟩,
    sight.holds_lambda.mpr ⟨isFine, alike.right, same.right⟩⟩
  rw [sight.change_lambda, sight.change_lambda, same.seen]
  exact congrArg (Function.lambda parameters body · _) alike.seen

theorem sameFunction_implicit (isFine : sight.fine body)
    (alike : sight.Tables body.lookups captured others) (same : sight.Same payload other)
    (usesSecond : Bool) :
    sight.SameFunction (.implicit body captured payload usesSecond)
      (.implicit body others other usesSecond) := by
  refine ⟨?_, sight.holds_implicit.mpr ⟨isFine, alike.left, same.left⟩,
    sight.holds_implicit.mpr ⟨isFine, alike.right, same.right⟩⟩
  rw [sight.change_implicit, sight.change_implicit, same.seen]
  exact congrArg (Function.implicit body · _ usesSecond) alike.seen

/-- The functions are one that holds no variables, or were written the same way and hold tables that
are alike for what is written there. -/
inductive SameCallee (sight : Sight) : Function → Function → Prop
  | fixed (callee : Function) (holdsNone : callee.holdsNone = true) (holds : sight.holds callee) :
      SameCallee sight callee callee
  | lambda {parameters : List (Parameter Expr)} {body : Expr}
      {captured : Bindings}
      (isFine : sight.fine (.lambda parameters body))
      (alike : sight.Tables (Expr.lookups (.lambda parameters body)) captured others)
      (same : sight.Same payload other) :
      SameCallee sight (.lambda parameters body captured payload)
        (.lambda parameters body others other)
  | implicit {body : Expr} {captured : Bindings}
      (isFine : sight.fine body) (alike : sight.Tables body.lookups captured others)
      (same : sight.Same payload other) (usesSecond : Bool) :
      SameCallee sight (.implicit body captured payload usesSecond)
        (.implicit body others other usesSecond)

theorem sameCallee_of_same (same : sight.SameFunction callee other) :
    sight.SameCallee callee other := by
  obtain ⟨seen, left, right⟩ := same
  cases callee with
  | lambda =>
    rw [sight.change_lambda] at seen
    cases other with
    | lambda =>
      rw [sight.change_lambda] at seen
      obtain ⟨rfl, rfl, seenTables, seenPayload⟩ := Function.lambda.inj seen
      obtain ⟨isFine, leftAll, leftPayload⟩ := sight.holds_lambda.mp left
      obtain ⟨_, rightAll, rightPayload⟩ := sight.holds_lambda.mp right
      exact .lambda isFine ⟨seenTables, leftAll, rightAll⟩ ⟨seenPayload, leftPayload, rightPayload⟩
    | implicit =>
      rw [sight.change_implicit] at seen
      cases seen
    | _ =>
      rw [sight.change_of_holdsNone rfl] at seen
      cases seen
  | implicit _ _ _ usesSecond =>
    rw [sight.change_implicit] at seen
    cases other with
    | lambda =>
      rw [sight.change_lambda] at seen
      cases seen
    | implicit =>
      rw [sight.change_implicit] at seen
      obtain ⟨rfl, seenTables, seenPayload, rfl⟩ := Function.implicit.inj seen
      obtain ⟨isFine, leftAll, leftPayload⟩ := sight.holds_implicit.mp left
      obtain ⟨_, rightAll, rightPayload⟩ := sight.holds_implicit.mp right
      exact .implicit isFine ⟨seenTables, leftAll, rightAll⟩
        ⟨seenPayload, leftPayload, rightPayload⟩ usesSecond
    | _ =>
      rw [sight.change_of_holdsNone rfl] at seen
      cases seen
  | _ =>
    rw [sight.change_of_holdsNone rfl] at seen
    cases other with
    | lambda =>
      rw [sight.change_lambda] at seen
      cases seen
    | implicit =>
      rw [sight.change_implicit] at seen
      cases seen
    | _ =>
      rw [sight.change_of_holdsNone rfl] at seen
      rw [← seen] at right ⊢
      exact .fixed _ rfl left

end Sight

/-! ## Contexts and engines -/

/-- The contexts show the same for the lookups. -/
structure Sight.Contexts (sight : Sight) (lookups : List Lookup) (left right : Context) : Prop where
  payload : sight.Same left.payload right.payload
  bindings : sight.Tables lookups left.bindings right.bindings
  lineOffset : left.lineOffset = right.lineOffset

namespace Sight.Contexts

variable {sight : Sight} {lookups : List Lookup} {left right : Context}

theorem fewer {fewer : List Lookup} (alike : sight.Contexts lookups left right)
    (isSubset : fewer ⊆ lookups) :
    sight.Contexts fewer left right :=
  ⟨alike.payload, alike.bindings.fewer isSubset, alike.lineOffset⟩

theorem child {child expr : Expr} (alike : sight.Contexts expr.lookups left right)
    (isChild : Expr.IsChild child expr) :
    sight.Contexts child.lookups left right :=
  alike.fewer (Expr.lookups_of_child isChild)

end Sight.Contexts

/-- The headers that functions are called in show the same for what these functions ask for. -/
structure Sight.Settings (sight : Sight) (left right : Setting) : Prop where
  ambient : left.ambient = right.ambient
  frames :
    ∀ {index : Nat} {declaration : FunctionDecl}, sight.headers index declaration →
      left.frames[index]? = none ∧ right.frames[index]? = none ∨
        ∃ frame other,
          left.frames[index]? = some frame ∧ right.frames[index]? = some other ∧
            sight.Same frame.payload other.payload ∧
            sight.Tables (Expr.lookups (.lambda declaration.parameters declaration.body))
              frame.bindings other.bindings

/-- The first engine refuses or leaves what the second one leaves where the same is seen. -/
structure Engine.Follows (refuses : Fault → Prop) (sight : Sight) (left right : Engine) : Prop where
  eval :
    ∀ {context other : Context} {expr : Expr}, sight.fine expr →
      sight.Contexts expr.lookups context other →
        (left.eval context expr).Follows refuses sight.Same (right.eval other expr)
  call : Caller.Follows refuses sight.toLikeness sight.Same left.call right.call

variable {sight : Sight} {refuses : Fault → Prop}

/-! ## Lookups -/

section Lookups

variable {ctx other : Context}

theorem Context.resolve_follows (name : String) (pos : Position)
    (alike : sight.Contexts (Expr.lookups (.name name pos)) ctx other) :
    (ctx.resolve name pos).Follows refuses sight.Same (other.resolve name pos) := by
  unfold Context.resolve
  split
  · exact .pure alike.payload
  split
  · rename_i isTable
    refine .pure (alike.bindings.toObject ?_)
    obtain rfl : name = "vars" := by simpa using isTable
    exact mem_singleton_self _
  rename_i notTable
  rw [alike.lineOffset]
  split
  · exact .pure (Likeness.same_function ⟨rfl, sight.holds_plus _ _, sight.holds_plus _ _⟩)
  cases Builtin.named? name with
  | some builtin =>
    exact .pure
      (Likeness.same_function ⟨rfl, sight.holds_builtin builtin, sight.holds_builtin builtin⟩)
  | none =>
    have isAsked : Lookup.named name ∈ Expr.lookups (.name name pos) := by
      have differs : name ≠ "vars" := by simpa using notTable
      simp [Expr.lookups, Expr.gather, Expr.nodeLookups, differs]
    rcases alike.bindings.none_or_some isAsked with
      ⟨inLeft, inRight⟩ | ⟨found, otherFound, inLeft, inRight, sameFound⟩
    · rw [inLeft, inRight]
      exact .throw _
    · rw [inLeft, inRight]
      exact .pure sameFound

theorem Context.placeholder_follows (level : Nat) (pos : Position)
    (alike : sight.Contexts (Expr.lookups (.placeholder level pos)) ctx other) :
    (ctx.placeholder level pos).Follows refuses sight.Same (other.placeholder level pos) := by
  unfold Context.placeholder
  rcases alike.bindings.none_or_some (mem_singleton_self _) with
    ⟨inLeft, inRight⟩ | ⟨found, otherFound, inLeft, inRight, sameFound⟩
  · rw [inLeft, inRight]
    exact .throw _
  · rw [inLeft, inRight]
    exact .pure sameFound

end Lookups

/-! ## Calls -/

namespace Call

section Arguments

variable {like : Likeness} {arguments others : List Value}
  (same : Forall₂ like.Same arguments others)

include same

theorem all_zip_of_kept {α : Type} {test : α × Value → Bool}
    (kept : ∀ item value, test (item, value.onFunctions like.change) = test (item, value))
    (items : List α) : (items.zip arguments).all test = (items.zip others).all test := by
  induction same generalizing items with
  | nil => rfl
  | cons first _ ih =>
    cases items with
    | nil => rfl
    | cons item =>
      have sameTest : test (item, _) = test (item, _) :=
        @Likeness.eq_of_kept like _ _ Bool (fun value => test (item, value)) (kept item) first
      simp only [zip_cons_cons, all_cons, ih, sameTest]

theorem same_choose? (alts : List (Nat × FunctionDecl)) :
    choose? alts arguments = choose? alts others := by
  have sameTest (decl : FunctionDecl) :
      accepts decl arguments = accepts decl others :=
    all_zip_of_kept same (fun _ value => by cases value <;> rfl) _
  simp only [choose?, sameTest]

theorem same_dispatch? (alts : List (Option (List (Option String)) × Function)) :
    dispatch? alts arguments = dispatch? alts others := by
  have sameTest (types : Option (List (Option String))) :
      fitsAll types arguments = fitsAll types others := by
    match types with
    | none => rfl
    | some [] => rfl
    | some (first :: rest) =>
      simp only [fitsAll, same.length_eq]
      congr 1
      refine all_zip_of_kept same (fun type value => ?_) _
      simp only [Value.fitsNames_onFunctions]
  simp only [dispatch?, sameTest, same.length_eq]

end Arguments

/-- A placeholder stands for what looks the same if its parameter is asked for. -/
theorem standFor_alike (level : Nat) (alike : sight.Tables lookups locals others)
    (isAsked : ∀ given, param = some given → .named given.name ∈ lookups) :
    sight.Tables lookups (standFor level param locals) (standFor level param others) := by
  unfold standFor
  cases param with
  | none => exact alike
  | some given =>
    simp only [Option.bind_some]
    rcases alike.none_or_some (isAsked given rfl) with
      ⟨inLeft, inRight⟩ | ⟨found, otherFound, inLeft, inRight, sameFound⟩
    · rw [inLeft, inRight]
      exact alike
    · rw [inLeft, inRight]
      exact alike.setNew _ sameFound

/-- The names of parameters as lookups. -/
def named (parameters : List (Parameter Expr)) : List Lookup :=
  parameters.map fun parameter => .named parameter.name

/-- The body of a function asks for no more than the function and its parameters. -/
theorem body_lookups (parameters : List (Parameter Expr)) (body : Expr) :
    body.lookups ⊆ named parameters ++ Expr.lookups (.lambda parameters body) :=
  fun _ mem => mem_append_right _ (Expr.lookups_of_child .body mem)

theorem choose?_mem (isChosen : choose? alts arguments = some chosen) : chosen ∈ alts := by
  rcases Option.or_eq_some_iff.mp isChosen with isFound | ⟨_, isLast⟩
  · exact mem_of_find?_eq_some isFound
  · exact mem_of_getLast? isLast

theorem dispatch?_mem (isChosen : dispatch? alts arguments = some chosen) :
    ∃ alt ∈ alts, alt.2 = chosen := by
  obtain ⟨alt, isAlternative, rfl⟩ := Option.map_eq_some_iff.mp isChosen
  refine ⟨alt, ?_, rfl⟩
  rcases Option.or_eq_some_iff.mp isAlternative with isFound | ⟨_, isFirst⟩
  · exact mem_of_find?_eq_some isFound
  · exact mem_of_head? isFirst

section Engines

variable {left right : Engine} (engines : Engine.Follows refuses sight left right)
  {payload otherPayload : Value} (samePayload : sight.Same payload otherPayload)

include engines samePayload

/-- Arguments and defaults that look the same make tables that do. -/
theorem bind_follows (callee : Callee) (fallbacks :
      ∀ param ∈ parameters, ∀ fallback, param.fallback = some fallback →
        sight.fine fallback ∧ fallback.lookups ⊆ lookups)
    (alike : sight.Tables lookups locals otherLocals) (same : Forall₂ sight.Same arguments others) :
    (bind left callee payload locals parameters arguments).Follows refuses
      (sight.Tables (named parameters ++ lookups))
      (bind right callee otherPayload otherLocals parameters others) := by
  induction parameters generalizing lookups locals otherLocals arguments others with
  | nil => exact .pure alike
  | cons param rest ih =>
    rw [forall_mem_cons] at fallbacks
    -- With the parameter set, the rest is bound in tables that are alike for its name too.
    have further :
        ∀ {value other : Value} {arguments others : List Value}, sight.Same value other →
          Forall₂ sight.Same arguments others →
          (bind left callee payload (locals.set param.name value) rest arguments).Follows
            refuses (sight.Tables (named (param :: rest) ++ lookups))
            (bind right callee otherPayload (otherLocals.set param.name other) rest others) := by
      intro value other arguments others sameValue sameRest
      refine (ih
        (fun given mem fallback isFallback =>
          (fallbacks.2 given mem fallback isFallback).imp_right (subset_cons_of_subset _))
        (alike.set param.name sameValue) sameRest).imp fun table otherTable sameTable => ?_
      refine sameTable.fewer ?_
      intro lookup mem
      simp only [named, map_cons, mem_cons, mem_append] at *
      tauto
    cases same with
    | cons sameFirst sameRest => exact further sameFirst sameRest
    | nil =>
      unfold bind
      cases isFallback : param.fallback with
      | none => exact .throw _
      | some fallback =>
        obtain ⟨isFine, isSubset⟩ := fallbacks.1 fallback isFallback
        exact .bind (engines.eval isFine ⟨samePayload, alike.fewer isSubset, rfl⟩)
          fun value other sameValue => further sameValue .nil

theorem bindAll_follows (callee : Callee) (isFine : sight.fine (.lambda parameters body))
    (alike : sight.Tables (Expr.lookups (.lambda parameters body)) locals otherLocals)
    (same : Forall₂ sight.Same arguments others) :
    (bindAll left callee payload locals parameters arguments).Follows refuses
      (sight.Tables (named parameters ++ Expr.lookups (.lambda parameters body)))
      (bindAll right callee otherPayload otherLocals parameters others) := by
  unfold bindAll
  rw [same.length_eq]
  split
  · exact .throw _
  · refine bind_follows engines samePayload callee (fun param mem fallback isFallback => ?_)
      alike same
    have isChild : Expr.IsChild fallback (.lambda parameters body) := .fallback mem isFallback
    exact ⟨sight.fine_child isChild isFine, Expr.lookups_of_child isChild⟩

theorem lambda_follows (isFine : sight.fine (.lambda parameters body))
    (alike : sight.Tables (Expr.lookups (.lambda parameters body)) captured otherCaptured)
    (same : Forall₂ sight.Same arguments others) :
    (lambda left parameters body captured payload arguments).Follows refuses sight.Same
      (lambda right parameters body otherCaptured otherPayload others) := by
  refine .bind (bindAll_follows engines samePayload .lambda isFine alike same)
    fun locals otherLocals sameLocals => ?_
  have isAsked :
      ∀ (place : Nat) (given : Parameter Expr), parameters[place]? = some given →
        .named given.name ∈ named parameters ++ Expr.lookups (.lambda parameters body) := by
    intro place given isGiven
    exact mem_append_left _ (mem_map_of_mem (mem_of_getElem? isGiven))
  have alikeLocals := standFor_alike 2 (standFor_alike 1 sameLocals (isAsked 0)) (isAsked 1)
  exact engines.eval (sight.fine_child .body isFine)
    ⟨samePayload, alikeLocals.fewer (body_lookups parameters body), rfl⟩

theorem implicit_follows (isFine : sight.fine body)
    (alike : sight.Tables body.lookups captured otherCaptured)
    (same : Forall₂ sight.Same arguments others) :
    (implicit left body captured payload arguments).Follows refuses sight.Same
      (implicit right body otherCaptured otherPayload others) := by
  have alikeLocals := (alike.set "$" (Likeness.same_getD (Likeness.rel_getElem? same 0))).set "$$"
    (Likeness.same_getD (Likeness.rel_getElem? same 1))
  have inBody : body.lookups ⊆ Lookup.named "$$" :: Lookup.named "$" :: body.lookups :=
    fun _ mem => .tail _ (.tail _ mem)
  exact engines.eval isFine ⟨samePayload, alikeLocals.fewer inBody, rfl⟩

omit samePayload

variable {setting other : Setting} (settings : sight.Settings setting other)

include settings

theorem inFrame_follows (isHeader : sight.headers index decl)
    (same : Forall₂ sight.Same arguments others) :
    (inFrame setting left index decl arguments).Follows refuses sight.Same
      (inFrame other right index decl others) := by
  have isFine := sight.fine_header isHeader
  unfold inFrame
  rcases settings.frames isHeader with
    ⟨inLeft, inRight⟩ | ⟨frame, otherFrame, inLeft, inRight, samePayload, alike⟩
  · rw [inLeft, inRight]
    exact .throw _
  · rw [inLeft, inRight]
    refine .bind (bindAll_follows engines samePayload .function isFine alike same)
      fun locals otherLocals sameLocals => ?_
    have inBody := sameLocals.fewer (body_lookups decl.parameters decl.body)
    refine .bind (engines.eval (sight.fine_child .body isFine) ⟨samePayload, inBody, rfl⟩)
      fun result otherResult sameResult => ?_
    cases decl.returns with
    | none => exact .pure sameResult
    | some type =>
      exact .lift (Likeness.coerce_along type sameResult)

/-- A call follows the call of a function that may stand for the first one; for a built-in function
this takes that functions are told apart alike. -/
theorem step_follows (sameCallee : sight.SameFunction callee otherCallee)
    (same : Forall₂ sight.Same arguments others)
    (keepsSame : ∀ builtin, callee = .builtin builtin → Function.KeepsSame sight.change) :
    (step setting left callee arguments).Follows refuses sight.Same
      (step other right otherCallee others) := by
  cases sight.sameCallee_of_same sameCallee with
  | lambda isFine alike samePayload => exact lambda_follows engines samePayload isFine alike same
  | implicit isFine alike samePayload =>
    exact implicit_follows engines samePayload isFine alike same
  | fixed callee holdsNone holds =>
    cases callee with
    | lambda | implicit => cases holdsNone
    | builtin builtin =>
      simp only [step, settings.ambient]
      exact builtin.run_follows_of_keepsSame (keepsSame builtin rfl) _ engines.call same
    | plus =>
      cases Likeness.sameArguments_of_same same with
      | two sameLeft sameRight => exact .lift (Core.plus_along sameLeft sameRight _)
      | _ => exact .throw _
    | declared =>
      exact inFrame_follows engines settings (sight.holds_declared holds) same
    | overloaded =>
      simp only [step, same_choose? same]
      split
      case _ isChosen =>
        exact inFrame_follows engines settings
          (sight.holds_overloaded holds _ (choose?_mem isChosen)) same
      · exact .throw _
    | dispatch =>
      simp only [step, same_dispatch? same]
      split
      case _ isChosen =>
        obtain ⟨alt, mem, rfl⟩ := dispatch?_mem isChosen
        have isHeld := sight.holds_dispatch holds alt mem
        exact engines.call ⟨rfl, isHeld, isHeld⟩ same
      · exact .throw _

end Engines

end Call

end Weave
