import Weave.Proofs.Expr.Literals
import Weave.Proofs.Module.Gathered
import Weave.Proofs.Script.Written

namespace Weave

open List

/-!
# The script of a module

The script that is made of the functions of a module declares a variable for each of them and one
for each of their names, and its body is an object with a field for every name.  It can be read if
each of its lines stays a line when it is put together.
-/

variable {groups : List (String × List Overload)} {group : String × List Overload} {name : String}

/-- A word that goes on with an underscore is no word of a kind of its own. -/
theorem Token.IsWord.append (isWord : IsWord text)
    (goesOn : ∀ char ∈ more, isWordPart char) (isJoined : '_' ∈ more) :
    IsWord (text ++ more) := by
  obtain ⟨isNamed, _⟩ := isWord
  constructor
  · cases text with
    | nil => cases isNamed
    | cons =>
      simp only [isName, Bool.and_eq_true, all_eq_true, cons_append, forall_mem_append] at isNamed ⊢
      exact ⟨isNamed.1, isNamed.2, goesOn⟩
  · have joined := mem_append_right text isJoined
    unfold wordKind
    generalize text ++ more = whole at joined
    have notReserved :
        ∀ reserved : List Char, '_' ∉ reserved → whole ≠ reserved := by
      rintro reserved notInside rfl
      exact notInside joined
    simp [notReserved]

theorem Token.IsWord.isName (isWord : IsWord text) : VariableDecl.IsName text := by
  have parts := isWord.parts
  have isSome : text ≠ [] := by
    rintro rfl
    cases isWord.1
  constructor
  · obtain ⟨first, rest, rfl⟩ := exists_cons_of_ne_nil isSome
    exact ⟨first, rest, rfl, not_isBlank_of_isWordPart (parts first (by simp))⟩
  · have last := getLast?_eq_some_getLast isSome
    exact ⟨_, last, not_isBlank_of_isWordPart (parts _ (getLast_mem isSome))⟩
  · intro mem
    exact absurd (parts _ mem) (by decide)

namespace Module

/-! ## Names -/

theorem toList_variableName (name : String) (index : Nat) : (variableName name index).toList =
      name.toList ++ ("__overload_".toList ++ Nat.toDigits 10 index) := by
  simp [variableName]

/-- The name of the variable that holds all functions with a name. -/
def overloadsName (name : String) : String := name ++ "__overloads"

theorem isWord_variableName (isWord : Token.IsWord name.toList) (index : Nat) :
    Token.IsWord (variableName name index).toList := by
  rw [toList_variableName]
  refine isWord.append ?_ (by simp)
  rw [forall_mem_append]
  constructor
  · exact all_eq_true.mp (by decide)
  · intro digit mem
    have isDigit := Nat.isDigit_of_mem_toDigits (by decide) (by decide) mem
    simp [Token.isWordPart, Char.isAlphanum, isDigit]

theorem isWord_overloadsName (isWord : Token.IsWord name.toList) :
    Token.IsWord (overloadsName name).toList := by
  rw [overloadsName, String.toList_append]
  exact isWord.append (all_eq_true.mp (by decide)) (by decide)

theorem ne_if_of_mem (isJoined : '_' ∈ name.toList) : name ≠ "if" := by
  rintro rfl
  exact absurd isJoined (by decide)

/-! ## Expressions -/

/-- The expression of the type of a parameter. -/
def typeExpr : Option String → Expr
  | some type => .text (String.ofList (Text.Escape.byteCharacters type.toList))
  | none => .null

/-- The expression of the entry of one function. -/
def entryExpr (name : String) (index : Nat) (overload : Overload) : Expr :=
  .object [(.text "function", .name (variableName name index) .nowhere),
    (.text "paramTypes", .list (overload.parameters.map fun parameter => typeExpr parameter.2))]

/-- The expression of all functions with one name. -/
def groupExpr (group : String × List Overload) : Expr :=
  .list (group.2.zipIdx.map fun one => entryExpr group.1 one.2 one.1)

/-- The expression of the body. -/
def bodyExpr (groups : List (String × List Overload)) : Expr :=
  .object (groups.map fun group => (.text group.1, .name (overloadsName group.1) .nowhere))

/-- The text of a function as a lambda. -/
def Overload.lambdaText (overload : Overload) : List Char :=
  Expr.lambdaText (overload.parameters.map (·.1)) overload.body.toList

/-- No type of a parameter holds a dollar sign, behind which something could be evaluated. -/
def Overload.HasPlainTypes (overload : Overload) : Prop :=
  ∀ parameter ∈ overload.parameters, ∀ type ∈ parameter.2, '$' ∉ type.toList

theorem hasText_typeText (noDollar : ∀ written ∈ type, '$' ∉ written.toList) :
    (typeExpr type).HasText (typeText type).toList := by
  cases type with
  | none => exact .null
  | some written => exact .quoted (noDollar written rfl)

theorem hasText_entryText {overload : Overload} (isWord : Token.IsWord name.toList)
    (plainTypes : overload.HasPlainTypes) (index : Nat) :
    (entryExpr name index overload).HasText (entryText name index overload).toList := by
  have isText :
      (entryText name index overload).toList =
        Expr.objectText
          [("function", (variableName name index).toList),
            ("paramTypes",
              Expr.listText (overload.parameters.map fun param =>
                (typeText param.2).toList))] := by
    simp [entryText, Expr.objectText, Expr.listText, String.toList_intercalate, intercalate,
      Function.comp_def]
  have variableText :
      (Expr.name (variableName name index) .nowhere).HasText (variableName name index).toList :=
    .word (isWord_variableName isWord index) (ne_if_of_mem (by simp [toList_variableName]))
  have typesText := Expr.HasText.list fun param mem => hasText_typeText (plainTypes param mem)
  rw [isText]
  apply @Expr.HasText.object _ [("function", _, _), ("paramTypes", _, _)] (·.2.1) (·.2.2) (·.1)
  · simp only [forall_mem_cons]
    exact ⟨by decide, by decide, by simp⟩
  · simp only [forall_mem_cons]
    exact ⟨variableText, typesText, by simp⟩

/-- The text of all functions with one name. -/
def groupText (group : String × List Overload) : List Char :=
  Expr.listText (group.2.zipIdx.map fun one => (entryText group.1 one.2 one.1).toList)

theorem hasText_groupText (isWord : Token.IsWord group.1.toList)
    (plainTypes : ∀ overload ∈ group.2, overload.HasPlainTypes) :
    (groupExpr group).HasText (groupText group) :=
  .list fun one isNumbered =>
    hasText_entryText isWord (plainTypes one.1 (fst_mem_of_mem_zipIdx isNumbered)) one.2

/-- The text of the body. -/
def bodyText (groups : List (String × List Overload)) : List Char :=
  Expr.objectText (groups.map fun group => (group.1, (overloadsName group.1).toList))

theorem hasText_bodyText (areWords : ∀ group ∈ groups, Token.IsWord group.1.toList) :
    (bodyExpr groups).HasText (bodyText groups) :=
  .object areWords fun group isGroup => .word (isWord_overloadsName (areWords group isGroup))
    (ne_if_of_mem (by simp [overloadsName]))

/-! ## Lines -/

theorem toList_headerLines (group : String × List Overload) :
    (headerLines group).map String.toList =
      group.2.zipIdx.map (fun one =>
          VariableDecl.line (variableName group.1 one.2) one.1.lambdaText) ++
        [VariableDecl.line (overloadsName group.1) (groupText group)] := by
  simp [headerLines, variableLine, Function.comp_def, VariableDecl.line, groupText, overloadsName,
    Overload.lambdaText, Expr.lambdaText, Expr.listText, String.toList_intercalate]

theorem toList_scriptOf (groups : List (String × List Overload)) : (scriptOf groups).toList =
      Script.written ((groups.flatMap headerLines).map String.toList) (bodyText groups) := by
  simp [scriptOf, Script.written, bodyText, Expr.objectText, overloadsName, bodyMark,
    String.toList_intercalate, Function.comp_def]

/-- Functions whose lines stay what they are when they are put together: the names are words, each
function is read as a lambda, no type can be evaluated, and no line holds the mark of the body or a
line end. -/
structure ArePasteable (groups : List (String × List Overload)) : Prop where
  areWords : ∀ group ∈ groups, Token.IsWord group.1.toList
  areLambdas :
    ∀ group ∈ groups, ∀ overload ∈ group.2, ∃ parameters inner,
      Expr.parse overload.lambdaText = .ok (.lambda parameters inner)
  plainTypes : ∀ group ∈ groups, ∀ overload ∈ group.2, overload.HasPlainTypes
  noMark : ∀ line ∈ groups.flatMap headerLines, Text.contains line.toList bodyMark = false
  areLines : ∀ line ∈ groups.flatMap headerLines, Text.IsLine line.toList

/-- The declarations of the variables for single functions. -/
abbrev DeclareEach (name : String) : List (Overload × Nat) → List VariableDecl → Prop :=
  List.Forall₂ fun one declaration =>
    declaration.name = variableName name one.2 ∧
      Expr.parse one.1.lambdaText = .ok declaration.value

/-- The declarations of the variables for the functions with one name. -/
def Declares (group : String × List Overload) (declarations : List VariableDecl) : Prop :=
  ∃ lambdas whole,
    declarations = lambdas ++ [⟨overloadsName group.1, whole⟩] ∧
      DeclareEach group.1 group.2.zipIdx lambdas ∧ whole.placeless = groupExpr group

theorem trim_lambdaText {overload : Overload} (endsPlain : Text.EndsPlain overload.body.toList) :
    Text.trim overload.lambdaText = overload.lambdaText :=
  have wholeEndsPlain : Text.EndsPlain overload.lambdaText := (endsPlain.append _).append _
  wholeEndsPlain.trim_cons (by decide)

/-- The lines for the functions with one name declare their variables. -/
theorem means_headerLines (arePasteable : ArePasteable groups) (isGroup : group ∈ groups)
    (endPlain : ∀ overload ∈ group.2, Text.EndsPlain overload.body.toList) :
    ∃ decls, Declares group decls ∧
      Forall₂ Header.Line.Means ((headerLines group).map String.toList) (decls.map .variable) := by
  have isWord := arePasteable.areWords group isGroup
  obtain ⟨text, isText, viewedText⟩ :=
    (hasText_groupText isWord (arePasteable.plainTypes group isGroup)).parse_eq
  obtain ⟨whole, wholeRead, same⟩ := Expr.parse_trim isText
  have viewed := same.trans viewedText
  have wholeMeans := Header.Line.means_variable (isWord_overloadsName isWord).isName wholeRead
  choose! params inner areRead using arePasteable.areLambdas group isGroup
  let decl (one : Overload × Nat) : VariableDecl :=
    ⟨variableName group.1 one.2, .lambda (params one.1) (inner one.1)⟩
  refine ⟨group.2.zipIdx.map decl ++ [⟨overloadsName group.1, whole⟩],
    ⟨_, whole, rfl, ?_, viewed⟩, ?_⟩
  · rw [DeclareEach, forall₂_map_right_iff, forall₂_same]
    exact fun one isNumbered => ⟨rfl, areRead one.1 (fst_mem_of_mem_zipIdx isNumbered)⟩
  · rw [toList_headerLines, map_append]
    refine rel_append ?_ (.cons wholeMeans .nil)
    rw [map_map, forall₂_map_left_iff, forall₂_map_right_iff, forall₂_same]
    intro one isNumbered
    have isOverload := fst_mem_of_mem_zipIdx isNumbered
    have isRead := areRead one.1 isOverload
    rw [← trim_lambdaText (endPlain one.1 isOverload)] at isRead
    exact Header.Line.means_variable (isWord_variableName isWord one.2).isName isRead

theorem foldl_add_variables (decls : List VariableDecl) (draft : Header.Draft) :
    (decls.map Header.Line.variable).foldl Header.Draft.add draft =
      { draft with
        header := { draft.header with bindings := draft.header.bindings ++ decls } } := by
  induction decls generalizing draft with
  | nil => simp
  | cons _ _ ih =>
    rw [map_cons, foldl_cons, ih]
    simp [Header.Draft.add]

/-- The script of functions that can be put together declares their variables, and its body is an
object with a field for every name. -/
theorem parse_scriptOf (arePasteable : ArePasteable groups)
    (endPlain : ∀ group ∈ groups, ∀ overload ∈ group.2, Text.EndsPlain overload.body.toList) :
    ∃ decls body,
      Forall₂ Declares groups decls ∧ body.placeless = bodyExpr groups ∧
        Script.parse (scriptOf groups).toList =
          .ok ⟨{ Header.plain with bindings := decls.flatten }, body⟩ := by
  choose! decls declared means using fun group isGroup =>
    means_headerLines arePasteable isGroup (endPlain group isGroup)
  have areMeant :
      Forall₂ Header.Line.Means ((groups.flatMap headerLines).map String.toList)
        ((groups.map decls).flatten.map .variable) := by
    clear arePasteable endPlain declared
    induction groups with
    | nil => exact .nil
    | cons _ _ ih =>
      rw [forall_mem_cons] at means
      rw [flatMap_cons, map_append, map_cons, flatten_cons, map_append]
      exact rel_append means.1 (ih means.2)
  obtain ⟨text, isText, viewed⟩ := (hasText_bodyText arePasteable.areWords).parse_eq
  obtain ⟨body, bodyRead, same⟩ := Expr.parse_trim isText
  have isVersion :
      (((groups.map decls).flatten.map Header.Line.variable).foldl Header.Draft.add
        ⟨some "2.0", Header.plain⟩).version = some "2.0" := by
    rw [foldl_add_variables]
  refine ⟨groups.map decls, body, ?_, same.trans viewed, ?_⟩
  · rwa [forall₂_map_right_iff, forall₂_same]
  rw [toList_scriptOf, Script.parse_written ?_ ?_ areMeant isVersion, bodyRead, foldl_add_variables]
  · rfl
  · exact forall_mem_map.mpr arePasteable.areLines
  · refine forall_mem_map.mpr fun line isLine => ?_
    rw [← Text.cutAt?_eq_none_iff (by decide)]
    simpa [Text.contains] using arePasteable.noMark line isLine

end Module

end Weave
