import Weave.Proofs.Eval.Follows
import Weave.Proofs.Outcome.Shares
import Weave.Script.Parser

namespace Weave

/-!
# What functions are made of

A function is made of the expressions that were written for it, of what it has captured, and of the
functions of headers that it stands for.  If expressions of some kind lead to such expressions only,
then functions that are made of them lead to such functions only.
-/

open Value

/-! ## Functions of fine expressions -/

section

variable (fine : Expr → Prop) (declares : Nat → FunctionDecl → Prop)

/-- All expressions of the function are fine, and headers may declare what it stands for. -/
inductive Function.IsMadeOf : Function → Prop
  | builtin (builtin : Builtin) : IsMadeOf (.builtin builtin)
  | plus (line column : Nat) : IsMadeOf (.plus line column)
  | lambda
      (isFine : fine (.lambda parameters body))
      (inCaptured :
        ∀ binding ∈ captured, ∀ callee ∈ binding.2.functions, IsMadeOf callee)
      (inPayload : ∀ callee ∈ payload.functions, IsMadeOf callee) :
      IsMadeOf (.lambda parameters body captured payload)
  | implicit (isFine : fine body)
      (inCaptured :
        ∀ binding ∈ captured, ∀ callee ∈ binding.2.functions, IsMadeOf callee)
      (inPayload : ∀ callee ∈ payload.functions, IsMadeOf callee)
      (usesSecond : Bool) :
      IsMadeOf (.implicit body captured payload usesSecond)
  | declared (isDeclared : declares index declaration) :
      IsMadeOf (.declared index declaration)
  | overloaded (areDeclared : ∀ alternative ∈ alternatives, declares alternative.1 alternative.2) :
      IsMadeOf (.overloaded alternatives)
  | dispatch (areMade : ∀ alternative ∈ alternatives, IsMadeOf alternative.2) :
      IsMadeOf (.dispatch alternatives)

end

/-- All expressions of the script are fine. -/
structure Script.IsMadeOf (fine : Expr → Prop) (script : Script) : Prop where
  bindings : ∀ declaration ∈ script.header.bindings, fine declaration.value
  functions :
    ∀ declaration ∈ script.header.functions,
      fine (.lambda declaration.parameters declaration.body)
  body : fine script.body

/-- Which expressions are fine, and which functions the headers of so many runs may declare.  More
headers may declare more functions. -/
structure Making where
  fine : Expr → Prop
  declares : Nat → Nat → FunctionDecl → Prop
  fine_child : ∀ {child expr : Expr}, Expr.IsChild child expr → fine expr → fine child
  fine_parsed : ∀ {source : List Char} {expr : Expr}, Expr.parse source = .ok expr → fine expr
  fine_script :
    ∀ {source : List Char} {script : Script}, Script.parse source = .ok script →
      script.IsMadeOf fine
  fine_declared :
    ∀ {count index : Nat} {declaration : FunctionDecl}, declares count index declaration →
      fine (.lambda declaration.parameters declaration.body)
  declares_new :
    ∀ (count : Nat) {declaration : FunctionDecl},
      fine (.lambda declaration.parameters declaration.body) →
        declares (count + 1) count declaration
  declares_later :
    ∀ {count later index : Nat} {declaration : FunctionDecl}, count ≤ later →
      declares count index declaration → declares later index declaration

namespace Making

variable (making : Making)

/-- The functions that there may be after so many runs. -/
def Holds (count : Nat) : Function → Prop := Function.IsMadeOf making.fine (making.declares count)

variable {making} {count later : Nat} {value : Value}

theorem Holds.mono (isLater : count ≤ later) (holds : making.Holds count callee) :
    making.Holds later callee := by
  induction holds with
  | builtin builtin => exact .builtin builtin
  | plus line column => exact .plus line column
  | lambda isFine _ _ inCaptured inPayload => exact .lambda isFine inCaptured inPayload
  | implicit isFine _ _ usesSecond inCaptured inPayload =>
    exact .implicit isFine inCaptured inPayload usesSecond
  | declared isDeclared => exact .declared (making.declares_later isLater isDeclared)
  | overloaded areDeclared =>
    exact .overloaded fun alt mem =>
      making.declares_later isLater (areDeclared alt mem)
  | dispatch _ areMade => exact .dispatch areMade

theorem all_mono (isLater : count ≤ later) (all : value.All (making.Holds count)) :
    value.All (making.Holds later) :=
  fun callee held => (all callee held).mono isLater

theorem allUnder_mono (isLater : count ≤ later) (all : AllUnder (making.Holds count) pairs) :
    AllUnder (making.Holds later) pairs :=
  fun pair mem => all_mono isLater (all pair mem)

theorem holds_lambda {payload : Value} : making.Holds count (.lambda params body captured payload) ↔
      making.fine (.lambda params body) ∧ AllUnder (making.Holds count) captured ∧
        payload.All (making.Holds count) := by
  constructor
  · intro holds
    cases holds with
    | lambda isFine inCaptured inPayload => exact ⟨isFine, inCaptured, inPayload⟩
  · rintro ⟨isFine, inCaptured, inPayload⟩
    exact .lambda isFine inCaptured inPayload

theorem holds_implicit {payload : Value} :
    making.Holds count (.implicit body captured payload usesSecond) ↔
      making.fine body ∧ AllUnder (making.Holds count) captured ∧
        payload.All (making.Holds count) := by
  constructor
  · intro holds
    cases holds with
    | implicit isFine inCaptured inPayload => exact ⟨isFine, inCaptured, inPayload⟩
  · rintro ⟨isFine, inCaptured, inPayload⟩
    exact .implicit isFine inCaptured inPayload usesSecond

theorem holds_declared (holds : making.Holds count (.declared index decl)) :
    making.declares count index decl := by
  cases holds with
  | declared isDeclared => exact isDeclared

theorem holds_overloaded (holds : making.Holds count (.overloaded alts)) :
    ∀ alt ∈ alts, making.declares count alt.1 alt.2 := by
  cases holds with
  | overloaded areDeclared => exact areDeclared

theorem holds_dispatch (holds : making.Holds count (.dispatch alts)) :
    ∀ alt ∈ alts, making.Holds count alt.2 := by
  cases holds with
  | dispatch areMade => exact areMade

theorem onFunctions_id (value : Value) : value.onFunctions id = value :=
  onFunctions_of_fixed fun _ _ => rfl

theorem onVariable_id : onVariable id = id := by
  funext binding
  exact Prod.ext rfl (onFunctions_id binding.2)

variable (making) in
/-- The sight that shows everything as it is. -/
def sight (count : Nat) : Sight where
  change := id
  holds := making.Holds count
  keeps := ⟨fun _ => rfl, fun _ => rfl, fun _ => rfl, fun _ => rfl⟩
  arrange := fun _ bindings => bindings
  fine := making.fine
  headers := making.declares count
  arranges :=
    { fewer := fun _ same => same
      found := fun _ same => same ▸ rfl
      whole := fun _ same => same
      set := fun _ _ same => same ▸ rfl
      setNew := fun _ _ same => same ▸ rfl }
  change_lambda := fun parameters body captured payload => by
    rw [onVariable_id, List.map_id, onFunctions_id, id]
  change_implicit := fun body captured payload usesSecond => by
    rw [onVariable_id, List.map_id, onFunctions_id, id]
  change_of_holdsNone := fun _ => rfl
  holds_builtin := .builtin
  holds_plus := .plus
  holds_lambda := holds_lambda
  holds_implicit := holds_implicit
  holds_declared := holds_declared
  holds_overloaded := holds_overloaded
  holds_dispatch := holds_dispatch
  fine_child := making.fine_child
  fine_header := making.fine_declared
  fine_parsed := making.fine_parsed

theorem same_iff :
    (making.sight count).Same value other ↔ value = other ∧ value.All (making.Holds count) := by
  constructor
  · rintro ⟨seen, left, _⟩
    exact ⟨(onFunctions_id value).symm.trans (seen.trans (onFunctions_id other)), left⟩
  · rintro ⟨rfl, all⟩
    exact ⟨rfl, all, all⟩

end Making

/-! ## Surroundings -/

/-- The payload and the variables of the header have functions with the property only. -/
structure Frame.All (holds : Function → Prop) (frame : Frame) : Prop where
  payload : frame.payload.All holds
  bindings : AllUnder holds frame.bindings

/-- The functions of all headers have the property. -/
def FramesAll (holds : Function → Prop) (frames : List Frame) : Prop :=
  ∀ frame ∈ frames, frame.All holds

/-- The payload and the variables have functions with the property only. -/
structure Context.All (holds : Function → Prop) (ctx : Context) : Prop where
  payload : ctx.payload.All holds
  bindings : AllUnder holds ctx.bindings

namespace Making

variable {making : Making} {count : Nat}

theorem settings {setting : Setting} (inFrames : FramesAll (making.Holds count) setting.frames) :
    (making.sight count).Settings setting setting where
  ambient := rfl
  frames := by
    intro index decl _
    cases isFrame : setting.frames[index]? with
    | none => exact .inl ⟨rfl, rfl⟩
    | some frame =>
      obtain ⟨payload, bindings⟩ := inFrames frame (List.mem_of_getElem? isFrame)
      exact .inr ⟨frame, frame, rfl, rfl, ⟨rfl, payload, payload⟩, ⟨rfl, bindings, bindings⟩⟩

/-- What an engine leaves that follows another one without refusing is shared. -/
theorem eval_shares {engine other : Engine}
    (follows : Engine.Follows (fun _ => False) (making.sight count) engine other)
    {ctx : Context} (inContext : ctx.All (making.Holds count)) (isFine : making.fine expr) :
    Outcome.Shares (Value.All (making.Holds count)) (engine.eval ctx expr)
      (other.eval ctx expr) := by
  obtain ⟨payload, bindings⟩ := inContext
  have evals := follows.eval isFine ⟨⟨rfl, payload, payload⟩, ⟨rfl, bindings, bindings⟩, rfl⟩
  generalize engine.eval ctx expr = left at evals ⊢
  generalize other.eval ctx expr = right at evals ⊢
  cases evals with
  | refused _ isRefusal => exact isRefusal.elim
  | fault _ raised => exact ⟨rfl, .error raised⟩
  | value _ same =>
    obtain ⟨rfl, all⟩ := same_iff.mp same
    exact ⟨rfl, .ok all⟩

end Making

end Weave
