import Weave.Proofs.Text.Lines
import Weave.Proofs.TypeSpec.Agreement
import Weave.Script.Parser

namespace Weave.Parameter

open List Text Token

/-!
# Declared parameters

Parameters are read back as printed if no type has a comma: a list is cut at the commas of its types
too.
-/

variable {part : List Char} {spec : TypeSpec} {param : Parameter Expr}
  {params : List (Parameter Expr)}

/-- What a list or a parameter is cut at, and the brackets that hide it. -/
def marks : List Char := ['(', '{', '[', ',', '=']

/-- The type has at most one generic, and so has that one. -/
inductive IsSingle : TypeSpec → Prop
  | word (isWord : IsWord word.toList) : IsSingle (.mk word [])
  | generic (isWord : IsWord word.toList) (ofOne : IsSingle type) : IsSingle (.mk word [type])

/-- The parameter has a name, no default, and at most a type that is printed without a comma. -/
structure IsSimple (param : Parameter Expr) : Prop where
  isWord : IsWord param.name.toList
  noDefault : param.fallback = none
  single : ∀ spec ∈ param.type?, IsSingle spec

def print (param : Parameter Expr) : List Char :=
  param.name.toList ++ param.type?.elim [] fun spec => ':' :: ' ' :: spec.print

theorem splitTopLevelFrom_append (plain : ∀ char ∈ part, char ∉ marks) (isMark : mark ∈ marks)
    (cuts : Option Nat) (segment rest : List Char) :
    splitTopLevelFrom mark 0 cuts segment (part ++ rest) =
      splitTopLevelFrom mark 0 cuts (part.reverse ++ segment) rest := by
  induction part generalizing segment with
  | nil => rfl
  | cons char _ ih =>
    rw [forall_mem_cons] at plain
    have differs : char ≠ mark := fun same => plain.1 (same ▸ isMark)
    have level : bracketDepth 0 char = 0 := by simp_all [bracketDepth, marks]
    simp [splitTopLevelFrom, differs, level, ih plain.2]

theorem ne_nil (ends : EndsPlain part) : part ≠ [] := by
  rintro rfl
  simp [EndsPlain] at ends

theorem of_isWord (isWord : IsWord part) : EndsPlain part ∧ ∀ char ∈ part, char ∉ ':' :: marks := by
  have isSome : part ≠ [] := by
    rintro rfl
    cases isWord.1
  refine ⟨⟨_, getLast?_eq_some_getLast isSome,
    not_isBlank_of_isWordPart (isWord.parts _ (getLast_mem _))⟩, fun char mem isMark => ?_⟩
  have noPart : ∀ mark ∈ ':' :: marks, isWordPart mark = false := by simp [marks]; decide
  exact absurd (isWord.parts char mem) (by simp [noPart char isMark])

theorem IsSingle.printed (isSingle : IsSingle spec) : spec.IsProper ∧
      EndsPlain spec.print ∧ ∀ char ∈ spec.print, char ∉ marks := by
  induction isSingle with
  | word isWord =>
    have isPlain := of_isWord isWord
    refine ⟨.mk isWord nofun, ?_⟩
    simp_all [TypeSpec.print, TypeSpec.printGenerics]
  | generic isWord _ ih =>
    have isPlain := of_isWord isWord
    refine ⟨.mk isWord (by simpa using ih.1), .append (.append ⟨'>', rfl, by decide⟩ _) _, ?_⟩
    simp_all [TypeSpec.print, TypeSpec.printGenerics, TypeSpec.printOthers, or_imp, forall_and]
    decide

theorem IsSimple.printed (isSimple : param.IsSimple) :
    EndsPlain param.print ∧ ∀ char ∈ param.print, char ∉ marks := by
  have isPlain := of_isWord isSimple.isWord
  unfold print
  cases isType : param.type? with
  | none => simp_all
  | some spec =>
    have isPrinted := (isSimple.single spec isType).printed
    refine ⟨(isPrinted.2.1.append [':', ' ']).append _, ?_⟩
    simp_all [or_imp, forall_and]
    decide

theorem trim_eq (isWord : IsWord part) (starts : part <+: whole) (ends : EndsPlain whole) :
    trim whole = whole := by
  obtain ⟨_, rfl⟩ := starts
  cases part with
  | nil => cases isWord.1
  | cons => exact ends.trim_cons (not_isBlank_of_isWordPart (isWord.parts _ mem_cons_self))

theorem read_print (isSimple : param.IsSimple) : read param.print = .ok param := by
  have isOne : splitTopLevel '=' (some 1) param.print = [param.print] := by
    simpa [splitTopLevel, splitTopLevelFrom] using
      splitTopLevelFrom_append isSimple.printed.2 (show '=' ∈ marks by decide) (some 1) [] []
  have ⟨ends, noMark⟩ := of_isWord isSimple.isWord
  have trimmed := trim_eq isSimple.isWord prefix_rfl ends
  have isSome := ne_nil ends
  have noCut := cutAt?_eq_none_of_not_mem (fun mem => noMark ':' mem mem_cons_self) []
  obtain ⟨name, _, type?⟩ := param
  obtain rfl := isSimple.noDefault
  rw [read, isOne]
  cases type? with
  | none => simp_all [print, pure, Except.pure, bind, Except.bind]
  | some spec =>
    have ⟨isProper, ends, _⟩ := (isSimple.single spec rfl).printed
    have cut := @cutAt?_append name.toList [':']
      (by simpa using (cutAt?_eq_none_iff (cons_ne_nil _ _) _).mp noCut) (' ' :: spec.print)
    have trimmed : trim (' ' :: spec.print) = spec.print := by
      rw [trim_cons_of_isBlank (by decide)]
      cases isProper with
      | mk isWord => exact trim_eq isWord (prefix_append _ _) ends
    simp_all [TypeSpec.parse_printed isProper, ne_nil ends, print, pure, Except.pure, bind,
      Except.bind]

theorem split_printed (isSimple : param.IsSimple) (areSimple : ∀ param ∈ params, param.IsSimple) :
    splitTopLevel ',' none (intercalate [','] ((param :: params).map print)) =
      (param :: params).map print := by
  have front (param : Parameter Expr) (isSimple : param.IsSimple) :=
    splitTopLevelFrom_append isSimple.printed.2 (show ',' ∈ marks by decide) none []
  induction params generalizing param with
  | nil => simpa [splitTopLevel, splitTopLevelFrom] using front param isSimple []
  | cons next params ih =>
    rw [forall_mem_cons] at areSimple
    simp_all [splitTopLevel, splitTopLevelFrom, bracketDepth, mayCut]

/-- Parameters whose types have at most one generic each are read back as printed. -/
theorem readAll_gives_back (areSimple : ∀ param ∈ params, param.IsSimple) :
    readAll (intercalate [','] (params.map print)) = .ok params := by
  have areRead : (params.map print).mapM read = .ok params := by
    induction params with
    | nil => rfl
    | cons param params ih =>
      rw [forall_mem_cons] at areSimple
      rw [map_cons, mapM_cons, read_print areSimple.1, ih areSimple.2]
      rfl
  have areEnded : ∀ text ∈ params.map print, EndsPlain text :=
    forall_mem_map.mpr fun param mem => (areSimple param mem).printed.1
  have areKept : (params.map print).map trim = params.map print := by
    rw [map_map]
    refine map_congr_left fun param mem => ?_
    exact trim_eq (areSimple param mem).isWord (prefix_append _ _) (areSimple param mem).printed.1
  have areSome : (params.map print).filter (!·.isEmpty) = params.map print :=
    filter_eq_self.mpr fun text mem => by simpa using ne_nil (areEnded text mem)
  cases params with
  | nil => rfl
  | cons param params =>
    rw [forall_mem_cons] at areSimple
    have starts : param.name.toList <+: intercalate [','] ((param :: params).map print) := by
      cases params <;> simp [print]
    have ends := @endsPlain_intercalate [','] _ (cons_ne_nil _ _) areEnded
    rw [readAll, trim_eq areSimple.1.isWord starts ends, split_printed areSimple.1 areSimple.2,
      areKept, areSome, areRead]

theorem readAll_gives_back_nested :
    readAll "f: List<Map<A>>,x".toList =
      .ok [⟨"f", none, some (.mk "List" [.mk "Map" [.mk "A" []]])⟩, ⟨"x", none, none⟩] := by
  refine (congrArg readAll (by decide)).trans (readAll_gives_back ?_)
  rw [forall_mem_cons, forall_mem_singleton]
  refine ⟨⟨by decide, rfl, ?_⟩, by decide, rfl, nofun⟩
  rintro _ ⟨⟩
  exact .generic (by decide) (.generic (by decide) (.word (by decide)))

end Weave.Parameter
