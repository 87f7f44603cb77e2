import Weave.Expr

namespace Weave

/-!
# What holds of every part of an expression

An expression is a part of itself, and the parts of what is nested in it are parts too.  A property
of expressions holds of all parts if it holds of the expression itself and of all parts of what is
nested directly in it.
-/

section

variable (holds : Expr → Prop)

/-- The property holds of the expression and of everything that is nested in it. -/
inductive Expr.All : Expr → Prop
  | object (here : holds (.object fields))
      (keys : ∀ field ∈ fields, All field.1) (values : ∀ field ∈ fields, All field.2) :
      All (.object fields)
  | list (here : holds (.list elements)) (inner : ∀ element ∈ elements, All element) :
      All (.list elements)
  | text (here : holds (.text value)) : All (.text value)
  | template (here : holds (.template parts)) (inner : ∀ part ∈ parts, All part) :
      All (.template parts)
  | number (here : holds (.number value)) : All (.number value)
  | boolean (here : holds (.boolean value)) : All (.boolean value)
  | null (here : holds .null) : All .null
  | name (here : holds (.name word position)) : All (.name word position)
  | placeholder (here : holds (.placeholder level position)) :
      All (.placeholder level position)
  | property (here : holds (.property base selector nullSafe)) (inner : All base) :
      All (.property base selector nullSafe)
  | index (here : holds (.index base place)) (inBase : All base) (inPlace : All place) :
      All (.index base place)
  | call (here : holds (.call function arguments))
      (inFunction : All function) (inArguments : ∀ argument ∈ arguments, All argument) :
      All (.call function arguments)
  | orElse (here : holds (.orElse left right)) (inLeft : All left)
      (inRight : All right) :
      All (.orElse left right)
  | conditional (here : holds (.conditional condition whenTrue whenFalse))
      (inCondition : All condition) (inTrue : All whenTrue) (inFalse : All whenFalse) :
      All (.conditional condition whenTrue whenFalse)
  | lambda (here : holds (.lambda parameters body)) (fallbacks :
        ∀ parameter ∈ parameters, ∀ fallback, parameter.fallback = some fallback →
          All fallback)
      (inBody : All body) :
      All (.lambda parameters body)
  | matching (here : holds (.matching subject cases)) (inSubject : All subject) (matchers :
        ∀ case ∈ cases, ∀ pattern, case.pattern = some pattern →
          ∀ matcher, pattern.matcher = some matcher → All matcher)
      (guards :
        ∀ case ∈ cases, ∀ pattern, case.pattern = some pattern →
          ∀ guard, pattern.guard = some guard → All guard)
      (results : ∀ case ∈ cases, All case.result) :
      All (.matching subject cases)
  | coercion (here : holds (.coercion value target options)) (inValue : All value)
      (inOptions : ∀ given, options = some given → All given) :
      All (.coercion value target options)

end

namespace Expr

/-- The expression is nested directly in the case. -/
inductive IsInCase (case : MatchCase Expr) : Expr → Prop
  | matcher (isPattern : case.pattern = some pattern) (isMatcher : pattern.matcher = some expr) :
      IsInCase case expr
  | guard (isPattern : case.pattern = some pattern) (isGuard : pattern.guard = some expr) :
      IsInCase case expr
  | result : IsInCase case case.result

/-- The expression is nested directly in the other. -/
inductive IsChild : Expr → Expr → Prop
  | key (member : field ∈ fields) : IsChild field.1 (.object fields)
  | value (member : field ∈ fields) : IsChild field.2 (.object fields)
  | element (member : element ∈ elements) : IsChild element (.list elements)
  | part (member : part ∈ parts) : IsChild part (.template parts)
  | base : IsChild base (.property base selector nullSafe)
  | indexed : IsChild base (.index base place)
  | place : IsChild place (.index base place)
  | callee : IsChild function (.call function arguments)
  | argument (member : argument ∈ arguments) : IsChild argument (.call function arguments)
  | left : IsChild left (.orElse left right)
  | right : IsChild right (.orElse left right)
  | condition : IsChild condition (.conditional condition whenTrue whenFalse)
  | whenTrue : IsChild whenTrue (.conditional condition whenTrue whenFalse)
  | whenFalse : IsChild whenFalse (.conditional condition whenTrue whenFalse)
  | fallback (member : parameter ∈ parameters) (isFallback : parameter.fallback = some fallback) :
      IsChild fallback (.lambda parameters body)
  | body : IsChild body (.lambda parameters body)
  | subject : IsChild subject (.matching subject cases)
  | inCase (member : case ∈ cases) (isIn : IsInCase case expr) :
      IsChild expr (.matching subject cases)
  | coerced : IsChild value (.coercion value target options)
  | options : IsChild options (.coercion value target (some options))

/-- The property holds of something that is nested directly in the expression. -/
def SomeChild (holds : Expr → Prop) : Expr → Prop
  | .object fields => ∃ field ∈ fields, holds field.1 ∨ holds field.2
  | .list exprs | .template exprs => ∃ expr ∈ exprs, holds expr
  | .property base _ _ => holds base
  | .index first second | .orElse first second => holds first ∨ holds second
  | .call function arguments => holds function ∨ ∃ argument ∈ arguments, holds argument
  | .conditional condition whenTrue whenFalse =>
    (holds condition ∨ holds whenTrue) ∨ holds whenFalse
  | .lambda parameters body =>
    (∃ parameter ∈ parameters, ∃ fallback, parameter.fallback = some fallback ∧ holds fallback) ∨
      holds body
  | .matching subject cases =>
    holds subject ∨ ∃ case ∈ cases, ∃ expr, IsInCase case expr ∧ holds expr
  | .coercion value _ options => holds value ∨ ∃ given, options = some given ∧ holds given
  | _ => False

theorem exists_isChild_iff {expr : Expr} :
    (∃ child, IsChild child expr ∧ holds child) ↔ expr.SomeChild holds := by
  constructor
  · rintro ⟨_, isChild, _⟩
    cases isChild <;> simp only [SomeChild] <;> grind
  · intro some
    cases expr with
    | object =>
      obtain ⟨field, mem, inKey | inValue⟩ := some
      · exact ⟨field.1, .key mem, inKey⟩
      · exact ⟨field.2, .value mem, inValue⟩
    | _ => simp only [SomeChild] at some <;> grind [IsChild]

namespace All

variable {holds : Expr → Prop} {expr : Expr}

theorem here (all : expr.All holds) : holds expr := by
  cases all <;> assumption

/-- What holds of all parts of an expression holds of all parts of its children. -/
theorem child {inner : Expr} (all : expr.All holds) (isChild : IsChild inner expr) :
    inner.All holds := by
  cases isChild with
  | key mem => cases all with | object _ keys _ => exact keys _ mem
  | value mem => cases all with | object _ _ values => exact values _ mem
  | element mem => cases all with | list _ inner => exact inner _ mem
  | part mem => cases all with | template _ inner => exact inner _ mem
  | base => cases all with | property _ inner => exact inner
  | indexed => cases all with | index _ inBase _ => exact inBase
  | place => cases all with | index _ _ inPlace => exact inPlace
  | callee => cases all with | call _ inFunction _ => exact inFunction
  | argument mem => cases all with | call _ _ inArguments => exact inArguments _ mem
  | left => cases all with | orElse _ inLeft _ => exact inLeft
  | right => cases all with | orElse _ _ inRight => exact inRight
  | condition => cases all with | conditional _ inCondition _ _ => exact inCondition
  | whenTrue => cases all with | conditional _ _ inTrue _ => exact inTrue
  | whenFalse => cases all with | conditional _ _ _ inFalse => exact inFalse
  | fallback mem isFallback =>
    cases all with | lambda _ fallbacks _ => exact fallbacks _ mem _ isFallback
  | body => cases all with | lambda _ _ inBody => exact inBody
  | subject => cases all with | matching _ inSubject _ _ _ => exact inSubject
  | inCase mem isIn =>
    cases all with
    | matching _ _ matchers guards results =>
      cases isIn with
      | matcher isPattern isMatcher => exact matchers _ mem _ isPattern _ isMatcher
      | guard isPattern isGuard => exact guards _ mem _ isPattern _ isGuard
      | result => exact results _ mem
  | coerced => cases all with | coercion _ inValue _ => exact inValue
  | options => cases all with | coercion _ _ inOptions => exact inOptions _ rfl

theorem of_children (here : holds expr) (inner : ∀ child, IsChild child expr → child.All holds) :
    expr.All holds := by
  cases expr with
  | object =>
    exact .object here (fun _ mem => inner _ (.key mem)) fun _ mem => inner _ (.value mem)
  | list => exact .list here fun _ mem => inner _ (.element mem)
  | text => exact .text here
  | template => exact .template here fun _ mem => inner _ (.part mem)
  | number => exact .number here
  | boolean => exact .boolean here
  | null => exact .null here
  | name => exact .name here
  | placeholder => exact .placeholder here
  | property => exact .property here (inner _ .base)
  | index => exact .index here (inner _ .indexed) (inner _ .place)
  | call =>
    exact .call here (inner _ .callee) fun _ mem => inner _ (.argument mem)
  | orElse => exact .orElse here (inner _ .left) (inner _ .right)
  | conditional =>
    exact .conditional here (inner _ .condition) (inner _ .whenTrue) (inner _ .whenFalse)
  | lambda =>
    exact .lambda here (fun _ mem _ isFallback => inner _ (.fallback mem isFallback))
      (inner _ .body)
  | matching =>
    exact .matching here (inner _ .subject)
      (fun _ mem _ isPattern _ isMatcher =>
        inner _ (.inCase mem (.matcher isPattern isMatcher)))
      (fun _ mem _ isPattern _ isGuard => inner _ (.inCase mem (.guard isPattern isGuard)))
      fun _ mem => inner _ (.inCase mem .result)
  | coercion =>
    exact .coercion here (inner _ .coerced) fun _ isGiven => by
      subst isGiven
      exact inner _ .options

/-- What holds of an expression if it holds of its children, for expressions whose nodes all have
a property. -/
theorem byChildren {passes : Expr → Prop}
    (step : ∀ expr, holds expr → (∀ child, IsChild child expr → passes child) → passes expr)
    (all : expr.All holds) :
    passes expr := by
  induction all with
  | matching here _ _ _ _ inSubject matchers guards results =>
    refine step _ here fun child isChild => ?_
    cases isChild with
    | subject => exact inSubject
    | inCase mem isIn =>
      cases isIn with
      | matcher isPattern isMatcher => exact matchers _ mem _ isPattern _ isMatcher
      | guard isPattern isGuard => exact guards _ mem _ isPattern _ isGuard
      | result => exact results _ mem
  | _ =>
    refine step _ (by assumption) fun child isChild => ?_
    cases isChild <;> solve_by_elim

theorem imp (all : expr.All holds) (implies : ∀ part, holds part → others part) : expr.All others :=
  all.byChildren fun _ here inner => .of_children (implies _ here) inner

end All

/-- The expression is a part: what holds of all parts of the whole holds of all parts of it. -/
def IsPartOf (part whole : Expr) : Prop := ∀ holds : Expr → Prop, whole.All holds → part.All holds

theorem All.areParts {expr : Expr} (all : expr.All holds) (isPart : expr.IsPartOf whole) :
    expr.All fun part => part.IsPartOf whole :=
  @byChildren holds expr
    (fun part => part.IsPartOf whole → part.All fun inner => inner.IsPartOf whole)
    (fun _ _ inner isPart => .of_children isPart fun child isChild =>
      inner child isChild fun _ inWhole => (isPart _ inWhole).child isChild) all isPart

end Expr

end Weave
