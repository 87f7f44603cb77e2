import Weave.Proofs.Expr.Unreadable
import Weave.Proofs.Text.Lines
import Weave.Script.Parser

namespace Weave

open List Text

/-!
# What reading a script ends with

A text that holds the mark of an interpolation would be read once more when it is evaluated.  No
text of a script that was read from a source holds one: neither in its body nor in the variables,
the functions and the defaults of its header.  A source that cannot be read is refused with a fault
that leaves room for another attempt, unless it holds a literal that cannot be read.
-/

variable {text : List Char} {bound : Nat} {draft : Header.Draft}

/-- The outermost node is no text that holds an interpolation. -/
def Expr.IsPlainNode : Expr → Prop
  | .text value => ¬ interpolationMark <:+: value.toList
  | _ => True

/-- No text of the expression holds an interpolation. -/
def Expr.IsPlain : Expr → Prop := Expr.All Expr.IsPlainNode

/-- No text of the defaults holds an interpolation. -/
def ParametersArePlain (parameters : List (Parameter Expr)) : Prop :=
  ∀ parameter ∈ parameters, ∀ fallback, parameter.fallback = some fallback → fallback.IsPlain

/-- No text of the function holds an interpolation. -/
structure FunctionDecl.IsPlain (declaration : FunctionDecl) : Prop where
  parameters : ParametersArePlain declaration.parameters
  body : declaration.body.IsPlain

/-- No text of the header holds an interpolation. -/
structure Header.IsPlain (header : Header) : Prop where
  bindings : ∀ declaration ∈ header.bindings, declaration.value.IsPlain
  functions : ∀ declaration ∈ header.functions, declaration.IsPlain

/-- No text of the script holds an interpolation. -/
structure Script.IsPlain (script : Script) : Prop where
  header : script.header.IsPlain
  body : script.body.IsPlain

/-- The search for an interpolation finds nothing just in the texts without its mark. -/
theorem cutAt?_interpolationMark :
    cutAt? interpolationMark text = none ↔ ¬ interpolationMark <:+: text :=
  cutAt?_eq_none_iff (by simp [interpolationMark]) text

/-- A fault with which reading the text may end. -/
def ParseFault.IsRaisedBy (text : List Char) (fault : ParseFault) : Prop :=
  fault.isRecoverable = true ∨ fault = .unreadableEscape ∧ HoldsUnreadable text

/-- What reading a part ends with may be what reading the whole text ends with. -/
theorem Concludes.within (concludes : Concludes (ParseFault.IsRaisedBy part) holds result)
    (isPart : part <:+: text) :
    Concludes (ParseFault.IsRaisedBy text) holds result :=
  concludes.imp (fun _ raised => raised.imp_right (.imp_right (·.within isPart)))
    fun _ property => property

theorem Expr.parse_concludes (source : List Char) :
    Concludes (ParseFault.IsRaisedBy source) Expr.IsPlain (Expr.parse source) := by
  refine ⟨fun expr isRead => ?_, fun fault isRefused => ?_⟩
  · refine Expr.All.imp (isWritten_of_parse isRead) fun part isWritten => ?_
    cases part with
    | text => exact cutAt?_interpolationMark.mp isWritten
    | _ => trivial
  · cases fault with
    | unreadableEscape => exact .inr ⟨rfl, holdsUnreadable_of_parseWithin isRefused⟩
    | exhausted => exact absurd isRefused (parse_ne_exhausted source)
    | _ => exact .inl rfl

theorem Expr.parse_leaves (source : List Char) : Leaves Expr.IsPlain (Expr.parse source) :=
  (parse_concludes source).leaves

/-! ## Types -/

namespace TypeSpec

/-- Reading takes something of the text, or refuses it with room for another attempt. -/
def Takes {α : Type} (text : List Char) (result : Except ParseFault (α × List Char)) : Prop :=
  Concludes (fun fault => fault.isRecoverable = true)
    (fun found => found.2.length < text.length) result

theorem length_trimStart_le (text : List Char) : (trimStart text).length ≤ text.length :=
  length_dropWhile_le _ _

theorem genericsOf_takes (each : ∀ part, part.length ≤ text.length → Takes part (item part))
    (enough : text.length < bound) :
    Takes text (genericsOf item bound text) := by
  induction bound generalizing text with
  | zero => cases enough
  | succ bound ih =>
    refine .bind (each text (Nat.le_refl _)) fun (first, rest) shorter => ?_
    have trimmed := length_trimStart_le rest
    dsimp only at shorter ⊢
    split
    case _ further isFurther =>
      rw [isFurther, length_cons] at trimmed
      have others := ih (fun part isShort => each part (by omega))
        (show further.length < bound by omega)
      refine .bind (others.imp (fun _ raised => raised) fun found isShorter => ?_)
        fun found isShorter => .ok isShorter
      exact isShorter.trans (by omega)
    case _ left isLeft =>
      rw [isLeft, length_cons] at trimmed
      exact .ok (show left.length < text.length by omega)
    · exact .error rfl

theorem readWithin_takes (enough : text.length < bound) : Takes text (readWithin bound text) := by
  induction bound generalizing text with
  | zero => cases enough
  | succ bound ih =>
    have whole := congrArg length
      (takeWhile_append_dropWhile (p := isNameCharacter) (l := trimStart text))
    have started := length_trimStart_le text
    have trimmed := length_trimStart_le ((trimStart text).dropWhile isNameCharacter)
    rw [length_append] at whole
    unfold readWithin
    dsimp only
    split
    · exact .error rfl
    case _ hasName =>
      have named := length_pos_of_ne_nil (mt List.isEmpty_iff.mpr hasName)
      split
      case _ inner isInner =>
        rw [isInner, length_cons] at trimmed
        have generics : Takes inner (genericsOf (readWithin bound) (bound + 1) inner) :=
          genericsOf_takes (fun part isShort => ih (by omega)) (by omega)
        refine .bind (generics.imp (fun _ raised => raised) fun found isShorter => ?_)
          fun found isShorter => .ok isShorter
        exact isShorter.trans (by omega)
      · exact .ok (trimmed.trans_lt (by omega))

theorem parse_concludes (source : List Char) :
    Concludes (fun fault => fault.isRecoverable) (fun _ => True)
      (TypeSpec.parse source) := by
  refine .bind (readWithin_takes (Nat.lt_succ_self _)) fun found _ => ?_
  dsimp only
  split
  · exact .ok trivial
  · exact .error rfl

end TypeSpec

/-! ## Headers -/

theorem Text.isInfix_of_mem_splitTopLevel {delimiter : Char} {cuts : Option Nat}
    {segment : List Char} (mem : segment ∈ splitTopLevel delimiter cuts text) :
    segment <:+: text := by
  have areParts :
      ∀ (depth : Nat) (cuts : Option Nat) (passed text : List Char),
        ∀ segment ∈ splitTopLevelFrom delimiter depth cuts passed text,
          segment <:+: passed.reverse ++ text := by
    intro depth cuts passed text
    fun_induction splitTopLevelFrom delimiter depth cuts passed text with
    | case1 => simp
    | case2 _ _ _ char _ _ _ ih =>
      refine forall_mem_cons.mpr ⟨infix_append' [] _ _, fun segment mem => ?_⟩
      exact infix_append_of_infix_right ((ih segment mem).trans ⟨[char], [], by simp⟩)
    | case3 _ _ _ _ _ _ _ ih => simpa using ih
  exact areParts 0 cuts [] text segment mem

theorem Parameter.named_concludes (segment name : List Char) {fallback : Option Expr}
    (isPlain : ∀ expr, fallback = some expr → expr.IsPlain) (type? : Option TypeSpec) :
    Concludes (ParseFault.IsRaisedBy segment) (fun param => ParametersArePlain [param])
      (if (trim name).isEmpty then throw .emptyParameterName
        else pure ⟨String.ofList (trim name), fallback, type?⟩ :
          Except ParseFault (Parameter Expr)) := by
  split
  · exact .error (.inl rfl)
  · exact .ok (forall_mem_singleton.mpr isPlain)

theorem Parameter.read_concludes (segment : List Char) :
    Concludes (ParseFault.IsRaisedBy segment) (fun param => ParametersArePlain [param])
      (Parameter.read segment) := by
  have typed (source : List Char) :
      Concludes (ParseFault.IsRaisedBy segment) (fun _ => True) (TypeSpec.parse source) :=
    (TypeSpec.parse_concludes source).imp (fun _ => .inl) fun _ => id
  unfold Parameter.read
  split
  case _ declared written isSplit =>
    have isPart : trim written <:+: segment :=
      (trim_isInfix written).trans (isInfix_of_mem_splitTopLevel (by rw [isSplit]; simp))
    dsimp only
    split
    · exact .error (.inl rfl)
    · refine .bind ((Expr.parse_concludes _).within isPart) fun value isPlain => ?_
      simp only [pure_bind]
      split
      · split
        · exact named_concludes _ _ (by simpa using isPlain) _
        · exact .bind (typed _) fun _ _ => named_concludes _ _ (by simpa using isPlain) _
      · exact named_concludes _ _ (by simpa using isPlain) _
  · simp only [pure_bind]
    split
    · split
      · exact @named_concludes segment _ none nofun _
      · exact .bind (typed _) fun _ _ => @named_concludes segment _ none nofun _
    · exact @named_concludes segment _ none nofun _

theorem Parameter.readAll_concludes (source : List Char) :
    Concludes (ParseFault.IsRaisedBy source) ParametersArePlain (Parameter.readAll source) := by
  refine (Concludes.mapM fun segment mem => (Parameter.read_concludes segment).within ?_).imp
    (fun _ raised => raised) fun params arePlain param mem => ?_
  · obtain ⟨found, inSource, rfl⟩ := mem_map.mp (mem_of_mem_filter mem)
    exact ((trim_isInfix found).trans (isInfix_of_mem_splitTopLevel inSource)).trans
      (trim_isInfix source)
  · exact arePlain param mem param mem_cons_self

theorem isInfix_of_signature? (found : signature? text = some (name, params, returns)) :
    params <:+: text := by
  have closed :
      ∀ (inner params : List Char) (returns : Option (List Char)),
        closeSignature? inner = some (params, returns) → params <+: inner := by
    intro inner
    fun_induction closeSignature? inner with
    | case1 => exact nofun
    | case2 _ _ _ _ isClosed ih =>
      rintro _ _ ⟨⟩
      exact cons_prefix_cons.mpr ⟨rfl, ih _ _ isClosed⟩
    | case3 =>
      rintro params returns isClosed
      obtain ⟨_, _, isPair⟩ := Option.map_eq_some_iff.mp isClosed
      exact (Prod.mk.inj isPair).1 ▸ nil_prefix
    | case4 => exact nofun
  have skipped (text : List Char) : skipTypeVariables text <:+ text := by
    unfold skipTypeVariables
    split
    · split
      case _ rest _ left isLeft =>
        have behind := isLeft ▸ dropWhile_suffix _
        exact (suffix_cons _ _).trans (behind.trans (suffix_cons _ _))
      · exact suffix_rfl
    · exact suffix_rfl
  unfold signature? at found
  split at found
  · cases found
  case _ char rest =>
    split at found
    · split at found
      case _ inner isInner =>
        obtain ⟨⟨_, _⟩, isClosed, isPair⟩ := Option.map_eq_some_iff.mp found
        cases isPair
        have behind : '(' :: inner <:+ rest := by
          rw [← isInner]
          exact (dropWhile_suffix _).trans ((skipped _).trans (dropWhile_suffix _))
        exact (closed _ _ _ isClosed).isInfix.trans
          ((suffix_cons _ _).trans (behind.trans (suffix_cons _ _))).isInfix
      · cases found
    · cases found

theorem FunctionDecl.read_concludes (source : List Char) (line : Nat) :
    Concludes (ParseFault.IsRaisedBy source) FunctionDecl.IsPlain
      (FunctionDecl.read source line) := by
  unfold FunctionDecl.read
  split
  · exact .error (.inl rfl)
  case _ signature written cut =>
    obtain rfl := eq_append_of_cutAt? cut
    dsimp only
    split
    · exact .error (.inl rfl)
    · split
      · exact .error (.inl rfl)
      case _ name params returns isSignature =>
        have inSource := (isInfix_of_signature? isSignature).trans (trim_isInfix signature)
        refine .bind ((Parameter.readAll_concludes _).within ?_) fun params arePlain => ?_
        · exact inSource.trans ⟨[], ['='] ++ written, by simp⟩
        refine .bind ((Expr.parse_concludes _).within ?_) fun body bodyIsPlain => ?_
        · exact (trim_isInfix written).trans (suffix_append _ _).isInfix
        refine Concludes.bind ?_ fun _ (_ : True) => .ok ⟨arePlain, bodyIsPlain⟩
        cases returns with
        | none => exact .ok trivial
        | some =>
          refine .bind ?_ fun _ (_ : True) => .ok trivial
          exact (TypeSpec.parse_concludes _).imp (fun _ => .inl) fun _ => id

theorem VariableDecl.read_concludes (source : List Char) (line : Nat) :
    Concludes (ParseFault.IsRaisedBy source) (fun decl => decl.value.IsPlain)
      (VariableDecl.read source line) := by
  unfold VariableDecl.read
  split
  · exact .error (.inl rfl)
  case _ declared written cut =>
    obtain rfl := eq_append_of_cutAt? cut
    dsimp only
    split
    · exact .error (.inl rfl)
    · refine .bind ((Expr.parse_concludes _).within ?_) fun value isPlain => .ok isPlain
      exact (trim_isInfix written).trans (suffix_append _ _).isInfix

/-- No text of what a line says holds an interpolation. -/
def Header.Line.IsPlain : Header.Line → Prop
  | .variable declaration => declaration.value.IsPlain
  | .function declaration => declaration.IsPlain
  | _ => True

theorem Header.Line.read_concludes (text : List Char) (number : Nat) :
    Concludes (ParseFault.IsRaisedBy text) Header.Line.IsPlain (Header.Line.read text number) := by
  have behind
      {keyword : String} {written : List Char} (found : directive? keyword text = some written) :
      written <:+: text := by
    obtain ⟨rest, starts, rfl⟩ := Option.map_eq_some_iff.mp found
    obtain rfl := eq_append_of_after? starts
    exact (trim_isInfix rest).trans (suffix_append _ _).isInfix
  unfold Header.Line.read
  split
  · split <;> exact .ok trivial
  split
  · exact .ok trivial
  split
  · unfold versionOf
    split
    · exact .ok trivial
    · exact .error (.inl rfl)
  split
  · exact .ok trivial
  split
  · exact .ok trivial
  split
  · exact .ok trivial
  split
  case _ isVariable =>
    exact .bind ((VariableDecl.read_concludes _ _).within (behind isVariable))
      fun decl isPlain => .ok isPlain
  split
  case _ isFunction =>
    exact .bind ((FunctionDecl.read_concludes _ _).within (behind isFunction))
      fun decl isPlain => .ok isPlain
  · exact .error (.inl rfl)

theorem Header.readLines_concludes (inComment : Bool) (number : Nat)
    (areParts : ∀ text ∈ texts, text <:+: source) :
    Concludes (ParseFault.IsRaisedBy source) (fun lines => ∀ line ∈ lines, line.IsPlain)
      (Header.readLines inComment number texts) := by
  fun_induction Header.readLines inComment number texts with
  | case1 => exact .ok (by simp)
  | case2 _ _ _ ih => exact ih (forall_mem_cons.mp areParts).2
  | case3 _ line _ ih =>
    obtain ⟨isPart, areOthers⟩ := forall_mem_cons.mp areParts
    refine .bind ((Header.Line.read_concludes _ _).within ((trim_isInfix line).trans isPart))
      fun first firstIsPlain => ?_
    refine .bind (ih first areOthers) fun others othersArePlain => ?_
    exact .ok (forall_mem_cons.mpr ⟨firstIsPlain, othersArePlain⟩)

theorem Header.Draft.isPlain_add {line : Header.Line} (isPlain : draft.header.IsPlain)
    (lineIsPlain : line.IsPlain) : (draft.add line).header.IsPlain := by
  obtain ⟨bindings, fns⟩ := isPlain
  match line, lineIsPlain with
  | .variable decl, isPlain =>
    exact ⟨forall_mem_append.mpr ⟨bindings, forall_mem_singleton.mpr isPlain⟩, fns⟩
  | .function decl, isPlain =>
    exact ⟨bindings, forall_mem_append.mpr ⟨fns, forall_mem_singleton.mpr isPlain⟩⟩
  | .blank, _ | .openComment, _ | .version _, _ | .output _, _ | .library _, _ =>
    exact ⟨bindings, fns⟩

theorem Header.Draft.isPlain_addAll {lines : List Header.Line} (isPlain : draft.header.IsPlain)
    (arePlain : ∀ line ∈ lines, line.IsPlain) :
    (lines.foldl Header.Draft.add draft).header.IsPlain := by
  induction lines generalizing draft with
  | nil => exact isPlain
  | cons _ _ ih =>
    obtain ⟨firstIsPlain, restArePlain⟩ := forall_mem_cons.mp arePlain
    exact ih (Header.Draft.isPlain_add isPlain firstIsPlain) restArePlain

theorem Header.isPlain_plain : Header.plain.IsPlain :=
  ⟨by simp [Header.plain], by simp [Header.plain]⟩

theorem Header.parse_concludes (source : List Char) :
    Concludes (ParseFault.IsRaisedBy source) Header.IsPlain (Header.parse source) := by
  refine .bind (Header.readLines_concludes _ _ fun _ => isInfix_of_mem_lines)
    fun lines arePlain => ?_
  have drafted : (lines.foldl Header.Draft.add ⟨none, Header.plain⟩).header.IsPlain :=
    Header.Draft.isPlain_addAll Header.isPlain_plain arePlain
  dsimp only
  split
  · exact .ok ⟨drafted.bindings, drafted.functions⟩
  · exact .error (.inl rfl)

/-! ## Scripts -/

/-- Reading a script ends with one whose texts are plain, or with a fault of the source. -/
theorem Script.parse_concludes (source : List Char) :
    Concludes (ParseFault.IsRaisedBy source) Script.IsPlain (Script.parse source) := by
  refine Concludes.within ?_ (trim_isInfix source)
  unfold Script.parse
  dsimp only
  split
  · split
    · exact .error (.inl rfl)
    · exact .bind (Expr.parse_concludes _) fun body isPlain => .ok ⟨Header.isPlain_plain, isPlain⟩
  case _ header body cut =>
    have isWhole := eq_append_of_cutAt? cut
    have inHeader : header <:+: trim source := ⟨[], bodyMark ++ body, by simp [isWhole]⟩
    have inBody : body <:+: trim source := ⟨header ++ bodyMark, [], by simp [isWhole]⟩
    refine .bind ((Header.parse_concludes _).within ((trim_isInfix _).trans inHeader))
      fun header headerIsPlain => ?_
    exact .bind ((Expr.parse_concludes _).within ((trim_isInfix _).trans inBody))
      fun body isPlain => .ok ⟨headerIsPlain, isPlain⟩

/-- No text of a script that was read holds an interpolation. -/
theorem Script.parse_leaves (source : List Char) : Leaves Script.IsPlain (Script.parse source) :=
  (parse_concludes source).leaves

end Weave
