import Mathlib.Data.List.Induction
import Weave.Proofs.Outcome
import Weave.Proofs.Value.Entries
import Weave.Session

namespace Weave

open List

/-!
# What a header binds

After the declarations of a header, the name of a variable has the value of its last declaration,
and the name of a function has all functions that are declared under it, in order.
-/

variable {name : String} {bindings after : Bindings}

/-- Whether a value is a function of a header. -/
def Value.isDeclared : Value → Bool
  | .function (.declared ..) => true
  | .function (.overloaded _) => true
  | _ => false

/-- The function that the declarations of one name make up. -/
def FunctionDecl.together (index : Nat) : List FunctionDecl → Function
  | [only] => .declared index only
  | several => .overloaded (several.map fun declaration => (index, declaration))

namespace Session

/-! ## Contexts of bodies -/

/-- The context in which a run evaluates the body of its script. -/
def bodyContext (session : Session) (ambient : Ambient) (imported : Bindings) (header : Header)
    (job : Job) :
    Outcome Context := do
  let bindings ←
    session.declareVariables ambient job.payload
      (header.functions.foldl (declareFunction session.frames.length)
        (job.bindings.setAll imported)) header.bindings
  return ⟨job.payload, bindings, bodyLineOffset job.source⟩

/-- Evaluate the body of a script in a context; a refusal is reported with the script. -/
def bodyValue (session : Session) (ambient : Ambient) (job : Job) (body : Expr)
    (ctx : Context) :
    Outcome Value :=
  tryCatch (body.eval (session.setting ambient ⟨ctx.payload, ctx.bindings⟩) ctx)
    fun fault => throw (reported job.source fault)

/-- What a run makes of the value of its body. -/
def delivered (header : Header) (job : Job) (value : Value) : Except Fault Value :=
  if job.isRendered then do
    let directive ← OutputDirective.parse header.output
    OutputDirective.finish directive value
  else value.unmarked

/-- A run declares what its header says, evaluates the body and delivers its value. -/
theorem runScript_eq (session : Session) (ambient : Ambient) (imported : Bindings) (script : Script)
    (job : Job) :
    session.runScript ambient imported script job =
      (do
        let ctx ← session.bodyContext ambient imported script.header job
        let value ← session.bodyValue ambient job script.body ctx
        let finished ← (delivered script.header job value : Except Fault Value)
        return (finished, ⟨session.frames ++ [⟨ctx.payload, ctx.bindings⟩]⟩)) := by
  unfold runScript bodyContext bodyValue
  simp only [bind_assoc]
  unfold delivered
  split
  · cases OutputDirective.parse script.header.output <;> rfl
  · rfl

/-! ## Functions -/

/-- The functions that a header declares under one name make up what the name has then, unless
functions of another header are there already. -/
theorem find?_declareFunctions {bindings : Bindings}
    (isNew : ∀ value, bindings.find? name = some value → value.isDeclared = false) (index : Nat)
    (fns : List FunctionDecl) : (fns.foldl (declareFunction index) bindings).find? name =
      match fns.filter fun decl => decl.name == name with
      | [] => bindings.find? name
      | declared => some (.function (FunctionDecl.together index declared)) := by
  induction fns using reverseRecOn with
  | nil => rfl
  | append_singleton fns last ih =>
    rw [foldl_append, foldl_cons, foldl_nil, filter_append]
    generalize fns.foldl (declareFunction index) bindings = table at ih ⊢
    by_cases isNamed : last.name = name
    · have onlyLast :
          [last].filter (fun decl => decl.name == name) = [last] := by
        simp [isNamed]
      rw [onlyLast]
      -- What is there before decides how the last function joins it.
      cases before : fns.filter fun decl => decl.name == name with
      | nil =>
        simp only [before] at ih
        have setAnew :
            declareFunction index table last =
              table.set last.name (.function (.declared index last)) := by
          unfold declareFunction
          rw [isNamed, ih]
          cases found : bindings.find? name with
          | none => rfl
          | some value =>
            have notDeclared := isNew value found
            cases value with
            | function callee => cases callee <;> first | rfl | cases notDeclared
            | _ => rfl
        rw [setAnew, Bindings.find?_set, if_pos isNamed.symm]
        rfl
      | cons first others =>
        simp only [before] at ih
        cases others with
        | nil =>
          have joined :
              declareFunction index table last =
                table.set last.name (.function (.overloaded [(index, first), (index, last)])) := by
            unfold declareFunction
            rw [isNamed, ih]
            rfl
          rw [joined, Bindings.find?_set, if_pos isNamed.symm]
          rfl
        | cons second more =>
          have joined :
              declareFunction index table last =
                table.set last.name
                  (.function (.overloaded
                    ((first :: second :: more).map (fun decl => (index, decl)) ++
                      [(index, last)]))) := by
            unfold declareFunction
            rw [isNamed, ih]
            rfl
          rw [joined, Bindings.find?_set, if_pos isNamed.symm]
          simp [FunctionDecl.together]
    · have noLast : [last].filter (fun decl => decl.name == name) = [] := by
        simp [isNamed]
      rw [noLast, append_nil, ← ih, declareFunction]
      split <;> rw [Bindings.find?_set, if_neg (Ne.symm isNamed)]

/-! ## Variables -/

variable {session : Session} {ambient : Ambient} {payload : Value}

theorem declareVariables_append (bindings : Bindings) (front back : List VariableDecl) :
    session.declareVariables ambient payload bindings (front ++ back) =
      session.declareVariables ambient payload bindings front >>= fun middle =>
        session.declareVariables ambient payload middle back := by
  induction front generalizing bindings with
  | nil => simp [declareVariables]
  | cons _ _ ih => simp only [cons_append, declareVariables, bind_assoc, ih]

theorem find?_of_declareVariables (notDeclared : ∀ decl ∈ decls, name ≠ decl.name)
    (declared : (session.declareVariables ambient payload bindings decls).result = .ok after) :
    after.find? name = bindings.find? name := by
  induction decls generalizing bindings with
  | nil =>
    obtain rfl := Except.ok.inj declared
    rfl
  | cons _ _ ih =>
    rw [forall_mem_cons] at notDeclared
    rw [declareVariables, Outcome.result_bind_eq_ok] at declared
    obtain ⟨value, _, others⟩ := declared
    rw [ih notDeclared.2 others, Bindings.find?_set, if_neg notDeclared.1]

end Session

end Weave
