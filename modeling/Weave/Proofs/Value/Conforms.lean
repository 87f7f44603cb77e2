import Weave.Module.Source
import Weave.Proofs.Eval.Engine
import Weave.Proofs.Outcome.Leaves
import Weave.Proofs.Value.Entries

open List

namespace Weave

/-!
# Values of a type

What it means that a value is of a type that a script names, told apart from how values are brought
into that form.  A coercion that succeeds leaves a value of its type, and so does a function of a
header that promises one.  A function of a module promises nothing, since its type is not read.
-/

/-! ## Types -/

variable {decl : FunctionDecl} {args : List Value}

/-- Whether a key is a text. -/
def Key.isText : Key → Bool
  | .text _ => true
  | .missing => false

namespace Value

/-- Whether a value is a number; truth values are none. -/
def isNumber : Value → Bool
  | .int _ | .float _ => true
  | _ => false

/-- Whether a value is made of bytes that no one can change. -/
def isBytes : Value → Bool
  | .bytes _ => true
  | _ => false

/-- Whether a value is a list of items that pass a test. -/
def isListOf (test : Value → Bool) : Value → Bool
  | .list _ items => items.all test
  | _ => false

/-- Whether a value is an object whose keys are texts and whose values pass a test. -/
def isObjectOf (test : Value → Bool) : Value → Bool
  | .object _ entries => entries.all fun entry => entry.1.isText && test entry.2
  | _ => false

end Value

namespace TypeSpec

mutual

/-- Whether a value is of a type.  The case of its name does not matter, and every value is of a
type with a name of its own. -/
def admits : TypeSpec → Value → Bool
  | .mk name generics, value =>
    match Text.lower (Text.trimmed name) with
    | "null" => value.isNull
    | "array" => value.isListOf (admitsFirst generics)
    | "object" => value.isObjectOf (admitsFirst generics)
    | "string" => value.isNull || value.isText
    | "number" => value.isNull || value.isNumber
    | "boolean" => value.isNull || value.isBool
    | "binary" => value.isNull || value.isBytes
    | _ => true

/-- Whether a value is of the first type; without a type there is nothing to be of. -/
def admitsFirst : List TypeSpec → Value → Bool
  | [], _ => true
  | spec :: _, value => admits spec value

end

end TypeSpec

/-! ## Coercions -/

namespace Value

theorem isNumber_simpleNumber (number : Float) : (simpleNumber number).isNumber = true := by
  rw [simpleNumber]
  cases Number.simplify number <;> rfl

theorem coerceNumber_leaves (value : Value) :
    Leaves (fun found => (found.isNull || found.isNumber)) (coerceNumber value) := by
  cases value with
  | null => exact .ok rfl
  | bool => exact .ok rfl
  | int => exact (Leaves.any _).bind fun _ _ => .ok rfl
  | float =>
    apply Leaves.ok
    rw [isNumber_simpleNumber, Bool.or_true]
  | text =>
    unfold coerceNumber
    dsimp only
    split
    · exact .ok rfl
    · split
      · apply Leaves.ok
        rw [isNumber_simpleNumber, Bool.or_true]
      · exact .error _
  | _ => exact .error _

theorem coerceText_leaves (value : Value) :
    Leaves (fun found => (found.isNull || found.isText)) (coerceText value) := by
  cases value with
  | null | bool => exact .ok rfl
  | _ => exact (Leaves.any _).bind fun _ _ => .ok rfl

theorem coerceBoolean_leaves (value : Value) :
    Leaves (fun found => (found.isNull || found.isBool)) (coerceBoolean value) := by
  cases value with
  | text =>
    unfold coerceBoolean
    dsimp only
    split
    · exact .ok rfl
    · split
      · exact .ok rfl
      · exact .error _
  | _ => exact .ok rfl

theorem coerceBinary_leaves (value : Value) :
    Leaves (fun found => (found.isNull || found.isBytes)) (coerceBinary value) := by
  cases value with
  | null | bytes | buffer | text => exact .ok rfl
  | _ => exact .error _

section Items

variable {item : Value → Except Fault Value} {holds : Value → Prop}
  (leaves : ∀ value, Leaves holds (item value))

include leaves

theorem coerceArray_leaves (value : Value) :
    Leaves (fun found => ∃ items, found = .array items ∧ ∀ item ∈ items, holds item)
      (coerceArray item value) := by
  refine (Leaves.any value.items).bind fun items _ => ?_
  refine (Leaves.mapM fun mem _ => leaves mem).bind fun results hold => ?_
  exact .ok ⟨results, rfl, hold⟩

theorem coerceObject_leaves (value : Value) : Leaves
      (fun found => ∃ entries : Entries, found = .record entries ∧
        (entries.map Prod.fst).Nodup ∧ ∀ entry ∈ entries, entry.1.isText ∧ holds entry.2)
      (coerceObject item value) := by
  cases value with
  | object _ entries =>
    have onEntries :
        Leaves (fun results : Entries => ∀ entry ∈ results, holds entry.2)
          (entries.mapM fun entry => do return (entry.1, ← item entry.2)) := by
      apply Leaves.mapM
      exact fun entry _ => (leaves entry.2).bind fun _ property => .ok property
    refine onEntries.bind fun results hold => ?_
    refine .ok ⟨textKeyed results, rfl, Entries.nodup_keys_ofList _, fun entry mem => ?_⟩
    obtain ⟨old, isOld, rfl⟩ := mem_map.mp (Entries.mem_ofList mem)
    exact ⟨rfl, hold old isOld⟩
  | _ => exact .error _

end Items

mutual

theorem coerce_leaves_admitted :
    ∀ (type : TypeSpec) (value : Value), Leaves (type.admits ·) (coerce type value)
  | .mk name generics, value => by
    have inner := coerceFirst_leaves_admitted generics
    by_cases isEmpty : name.isEmpty
    · obtain rfl := String.isEmpty_iff.mp isEmpty
      exact fun _ _ => rfl
    unfold coerce TypeSpec.admits
    rw [if_neg isEmpty]
    generalize Text.lower (Text.trimmed name) = target
    unfold coerceTo Form.named
    -- The name of the type decides what is asked for; null is treated before the other values.
    cases isNull : value.isNull with
    | true =>
      split
      case h_8 => exact (Leaves.any _).imp fun _ _ => rfl
      all_goals exact .ok rfl
    | false =>
      split
      · exact .ok rfl
      · refine (coerceArray_leaves inner value).imp ?_
        rintro _ ⟨items, rfl, passed⟩
        exact all_eq_true.mpr passed
      · refine (coerceObject_leaves inner value).imp ?_
        rintro _ ⟨entries, rfl, _, passed⟩
        exact all_eq_true.mpr fun entry mem =>
          Bool.and_eq_true_iff.mpr (passed entry mem)
      · exact coerceText_leaves value
      · exact coerceNumber_leaves value
      · exact coerceBoolean_leaves value
      · exact coerceBinary_leaves value
      · exact (Leaves.any _).imp fun _ _ => rfl
termination_by structural type => type

theorem coerceFirst_leaves_admitted : ∀ (generics : List TypeSpec) (value : Value),
      Leaves (TypeSpec.admitsFirst generics ·) (coerceFirst generics value)
  | [], value => by
    rw [coerceFirst]
    exact .ok rfl
  | type :: _, value => by
    simp only [coerceFirst, TypeSpec.admitsFirst]
    exact coerce_leaves_admitted type value
termination_by structural generics => generics

end

end Value

/-! ## Promises -/

/-! ## Functions of modules -/

namespace Module

theorem afterSignature?_typed {type : List Char} (notEmpty : type ≠ []) (noSign : '=' ∉ type)
    (body : List Char) : afterSignature? (':' :: (type ++ '=' :: body)) = some body := by
  obtain ⟨first, rest, rfl⟩ := exists_cons_of_ne_nil notEmpty
  have skipped : (first :: rest ++ '=' :: body).dropWhile (· != '=') = '=' :: body := by
    rw [dropWhile_append_of_pos (by grind)]
    rfl
  have starts : Text.trimStart (':' :: (first :: rest ++ '=' :: body)) =
      ':' :: (first :: rest ++ '=' :: body) := rfl
  rw [afterSignature?, starts]
  simp only [cons_append] at skipped ⊢
  split
  · rename_i isSign
    cases isSign
    exact absurd mem_cons_self noSign
  · simp only [skipped]

theorem parametersFrom_of_body {parameters signature body : List Char}
    (oneLine : ∀ char ∈ parameters, char ≠ ')' ∧ char ≠ '\n')
    (isBody : afterSignature? signature = some body) (passed : List Char) :
    parametersFrom passed (parameters ++ ')' :: signature) =
      some (passed.reverse ++ parameters, body) := by
  induction parameters generalizing passed with
  | nil => simp [parametersFrom, isBody]
  | cons first others ih =>
    rw [forall_mem_cons] at oneLine
    simp [parametersFrom, oneLine.1, ih oneLine.2]

/-- A function of a module is read as if no type stood behind its parameters. -/
theorem parametersFrom_typed {parameters type : List Char}
    (oneLine : ∀ char ∈ parameters, char ≠ ')' ∧ char ≠ '\n') (hasType : type ≠ [])
    (noSign : '=' ∉ type) (body : List Char) :
    parametersFrom [] (parameters ++ ')' :: ':' :: (type ++ '=' :: body)) =
      parametersFrom [] (parameters ++ ')' :: '=' :: body) := by
  rw [parametersFrom_of_body oneLine (afterSignature?_typed hasType noSign body),
    parametersFrom_of_body oneLine (show afterSignature? ('=' :: body) = some body from rfl)]

end Module

namespace Engine

theorem admits_of_declared (called : (Call.declared engine frame decl args).result = .ok value)
    {type : TypeSpec} (isPromised : decl.returns = some type) :
    type.admits value := by
  unfold Call.declared at called
  simp only [isPromised, Outcome.result_bind_eq_ok] at called
  obtain ⟨_, _, raw, _, coerced⟩ := called
  exact Value.coerce_leaves_admitted type raw value coerced

theorem admits_of_inFrame
    (called : (Call.inFrame setting engine index decl args).result = .ok value)
    {type : TypeSpec} (isPromised : decl.returns = some type) :
    type.admits value := by
  unfold Call.inFrame at called
  cases isFrame : setting.frames[index]? with
  | none => simp [isFrame] at called
  | some =>
    rw [isFrame] at called
    exact admits_of_declared called isPromised

/-- Types that are promised are kept.  Whatever its body and its arguments, a function of a header
with a type behind its parameters leaves a value of this type or none; of several functions with one
name, the one that is called keeps its promise.  So does a coercion.  A type behind the parameters
of a function in a module makes no difference to what is read. -/
theorem promised_types_kept (setting : Setting) (depth : Nat) (value : Value) :
    (∀ frame declaration arguments type,
      ((upTo setting depth).call (.declared frame declaration) arguments).result = .ok value →
        declaration.returns = some type → type.admits value = true) ∧
      (∀ alternatives arguments,
        ((upTo setting depth).call (.overloaded alternatives) arguments).result = .ok value →
          ∃ chosen ∈ alternatives, Call.choose? alternatives arguments = some chosen ∧
            ∀ type, chosen.2.returns = some type → type.admits value = true) ∧
      (∀ ctx expr type options,
        ((upTo setting depth).eval ctx (.coercion expr type options)).result = .ok value →
          type.admits value = true) ∧
      ∀ parameters type body, (∀ char ∈ parameters, char ≠ ')' ∧ char ≠ '\n') → type ≠ [] →
        '=' ∉ type →
          Module.parametersFrom [] (parameters ++ ')' :: ':' :: (type ++ '=' :: body)) =
            Module.parametersFrom [] (parameters ++ ')' :: '=' :: body) := by
  refine ⟨fun frame declaration arguments type called isPromised => ?_,
    fun alternatives arguments called => ?_, fun ctx expr type options evals => ?_,
    fun parameters type body oneLine hasType noSign =>
      Module.parametersFrom_typed oneLine hasType noSign body⟩
  · obtain ⟨shallower, step⟩ := step_of_call called
    exact admits_of_inFrame step isPromised
  · obtain ⟨shallower, step⟩ := step_of_call called
    simp only [Call.step] at step
    cases isChosen : Call.choose? alternatives arguments with
    | none => simp [isChosen] at step
    | some chosen =>
      rw [isChosen] at step
      refine ⟨chosen, ?_, rfl, fun type isPromised => admits_of_inFrame step isPromised⟩
      rcases Option.or_eq_some_iff.mp isChosen with isAccepted | ⟨_, isLast⟩
      · exact List.mem_of_find?_eq_some isAccepted
      · exact List.mem_of_getLast? isLast
  · obtain ⟨shallower, step⟩ := step_of_eval evals
    simp only [Eval.step, Outcome.result_bind_eq_ok] at step
    obtain ⟨raw, _, coerced⟩ := step
    cases options with
    | none => exact Value.coerce_leaves_admitted type raw value coerced
    | some =>
      obtain ⟨_, _, coerced⟩ := Outcome.result_bind_eq_ok.mp coerced
      exact Value.coerce_leaves_admitted type raw value coerced

/-- The type of objects of lists of texts. -/
def listsOfTexts : TypeSpec :=
  .mk "OBJECT" [.mk "array" [.mk "String" []]]

/-- A function that promises an object of lists of texts and has its argument for its body. -/
def asListsOfTexts : FunctionDecl :=
  ⟨"lists", [⟨"value", none, none⟩], .name "value" .nowhere, some listsOfTexts⟩

/-- A row with surplus cells, which have no text for a key. -/
def mixedRow : Value :=
  .record [(.missing, .array [.bool true, .null]), (.text "a", .text "hi"), (.text "b", .null)]

theorem promised_types_kept_row : ∃ value,
      ((upTo ⟨⟨"", 0⟩, [⟨.null, []⟩]⟩ 2).call (.declared 0 asListsOfTexts) [mixedRow]).result =
          .ok value ∧
        value =
          .record [(.text "None", .array [.text "true", .null]),
            (.text "a", .array [.text "h", .text "i"]), (.text "b", .array [])] ∧
        listsOfTexts.admits value = true := by
  have called :
      ((upTo ⟨⟨"", 0⟩, [⟨.null, []⟩]⟩ 2).call (.declared 0 asListsOfTexts) [mixedRow]).result =
        .ok (.record [(.text "None", .array [.text "true", .null]),
          (.text "a", .array [.text "h", .text "i"]), (.text "b", .array [])]) := by
    rfl
  exact ⟨_, called, rfl, (promised_types_kept _ 2 _).1 0 asListsOfTexts _ listsOfTexts called rfl⟩

end Engine

end Weave
