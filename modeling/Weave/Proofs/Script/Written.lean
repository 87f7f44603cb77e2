import Weave.Proofs.Expr.Trimmed
import Weave.Proofs.Script.Header

namespace Weave

open List Text

/-!
# Scripts that are put together

A script that is put together from the lines of a header and a body is taken apart again: if none
of its lines holds the mark of the body or a line end, each line is read as it would be alone.
-/

variable {lines : List (List Char)} {said : List Header.Line} {version : String} {body : List Char}

/-- The text of a script with the given lines behind the version. -/
def Script.written (lines : List (List Char)) (body : List Char) : List Char :=
  intercalate ['\n'] ("%dw 2.0".toList :: lines) ++ ['\n'] ++ bodyMark ++ '\n' :: body

/-- Wherever the line stands in a header, this is what it means. -/
def Header.Line.Means (line : List Char) (said : Header.Line) : Prop :=
  (∀ number, Header.Line.read (Text.trim line) number = .ok said) ∧
    (said matches .openComment) = false

namespace Header

theorem readLines_of_means (areMeant : Forall₂ Line.Means lines said) (number : Nat) :
    readLines false number lines = .ok said := by
  induction areMeant generalizing number with
  | nil => rfl
  | @cons _ read lines said isSaid _ ih =>
    obtain ⟨isRead, noComment⟩ := isSaid
    rw [readLines, isRead]
    refine except_bind_eq_ok.mpr ⟨read, rfl, except_bind_eq_ok.mpr ⟨said, ?_, rfl⟩⟩
    rw [← ih (number + 1)]
    exact congrArg (readLines · (number + 1) lines) noComment

theorem means_version : Line.Means "%dw 2.0".toList (.version "2.0") :=
  ⟨fun _ => by rfl, rfl⟩

theorem parse_of_means (areLines : ∀ line ∈ lines, Text.IsLine line)
    (areMeant : Forall₂ Line.Means lines said)
    (isVersion : (said.foldl Draft.add ⟨none, Header.plain⟩).version = some version) :
    Header.parse (lines.flatMap (· ++ ['\n'])) =
      .ok { (said.foldl Draft.add ⟨none, Header.plain⟩).header with version := version } := by
  have sameLines : Text.lines (lines.flatMap (· ++ ['\n'])) = lines := by
    simpa [Text.lines, linesFrom] using lines_flatMap_append areLines []
  rw [Header.parse, sameLines, readLines_of_means areMeant]
  refine except_bind_eq_ok.mpr ⟨_, rfl, ?_⟩
  simp only [isVersion]
  rfl

end Header

namespace Script

/-- A script is cut at the first mark of its body, and blanks around its parts are dropped. -/
theorem parse_marked (isFirst : ¬ bodyMark <:+: top ++ bodyMark.dropLast) (rest : List Char) :
    Script.parse (top ++ bodyMark ++ rest) =
      (do
        let header ← Header.parse (trim top)
        return ⟨header, ← Expr.parse (trim rest)⟩) := by
  have notBlank : isBlank '-' = false := rfl
  have trimmed : trim (top ++ bodyMark ++ rest) =
      trimStart top ++ bodyMark ++ dropEndWhile isBlank rest := by
    have shape : top ++ bodyMark ++ rest = (top ++ '-' :: ['-']) ++ '-' :: rest :=
      by simp [bodyMark]
    rw [shape, trim_append_cons notBlank, trimStart, dropWhile_append_cons notBlank]
    simp [bodyMark, trimStart]
  have stillFirst : ¬ bodyMark <:+: trimStart top ++ bodyMark.dropLast := by
    refine fun isThere => isFirst (isThere.trans ?_)
    obtain ⟨dropped, isTop⟩ := dropWhile_suffix isBlank (l := top)
    exact IsSuffix.isInfix ⟨dropped, by rw [← append_assoc, trimStart, isTop]⟩
  rw [Script.parse, trimmed]
  simp only [cutAt?_append stillFirst, trim_trimStart, trim_dropEndWhile]

/-- A script whose header has a line feed behind each line is read part by part. -/
theorem parse_lines (noMarks : ∀ line ∈ lines, ¬ bodyMark <:+: line) (rest : List Char) :
    Script.parse (lines.flatMap (· ++ ['\n']) ++ bodyMark ++ rest) =
      (do
        let header ← Header.parse (trim (lines.flatMap (· ++ ['\n'])))
        return ⟨header, ← Expr.parse (trim rest)⟩) :=
  parse_marked (not_isInfix_flatMap_append (by decide) noMarks (by decide)) rest

theorem written_eq (lines : List (List Char)) (body : List Char) : written lines body =
      ("%dw 2.0".toList :: lines).flatMap (· ++ ['\n']) ++ bodyMark ++ '\n' :: body := by
  rw [written, append_left_inj, append_left_inj]
  generalize "%dw 2.0".toList = first
  induction lines generalizing first with
  | nil => simp
  | cons _ _ ih => rw [intercalate_cons_cons, flatMap_cons, ← ih]; simp

/-- A script is cut where its header ends, and its parts are read. -/
theorem parse_written (areLines : ∀ line ∈ lines, Text.IsLine line)
    (noMarks : ∀ line ∈ lines, ¬ bodyMark <:+: line)
    (areMeant : Forall₂ Header.Line.Means lines said) (isVersion :
      (said.foldl Header.Draft.add ⟨some "2.0", Header.plain⟩).version = some version) :
    Script.parse (written lines body) =
      (Expr.parse (trim body)).map fun expr =>
        ⟨{ (said.foldl Header.Draft.add ⟨some "2.0", Header.plain⟩).header with
            version := version }, expr⟩ := by
  have isLine : Text.IsLine "%dw 2.0".toList := by decide
  have noMark : ¬ bodyMark <:+: "%dw 2.0".toList :=
    (cutAt?_eq_none_iff (by decide) _).mp (by decide)
  have isHeader := Header.parse_of_means (forall_mem_cons.mpr ⟨isLine, areLines⟩)
    (.cons Header.means_version areMeant) isVersion
  rw [written_eq, parse_lines (forall_mem_cons.mpr ⟨noMark, noMarks⟩),
    Header.parse_trim.mpr isHeader, trim_cons_of_isBlank (by decide)]
  cases Expr.parse (trim body) <;> rfl

/-- An expression is a script of its own unless the mark of a body stands in it, also inside of a
string or a comment.  Behind any header without the mark it is the body, whatever stands in it. -/
theorem parse_sections {source : List Char} {expr : Expr} (isRead : Expr.parse source = .ok expr) :
    ∃ body, Expr.parse (Text.trim source) = .ok body ∧ body.placeless = expr.placeless ∧
      (¬ bodyMark <:+: Text.trim source → Script.parse source = .ok ⟨Header.plain, body⟩) ∧
      ∀ top header, Header.parse top = .ok header → ¬ bodyMark <:+: top →
        Script.parse (top ++ '\n' :: bodyMark ++ '\n' :: source) = .ok ⟨header, body⟩ := by
  obtain ⟨body, isBody, same⟩ := Expr.parse_trim isRead
  refine ⟨body, isBody, same, fun noMark => ?_, fun top header isHeader noMark => ?_⟩
  · have noCut := (Text.cutAt?_eq_none_iff (by decide) _).mpr noMark
    have isSome : (Text.trim source).isEmpty = false := by
      cases isText : Text.trim source with
      | nil => rw [isText] at isBody; cases isBody
      | cons => rfl
    simp only [Script.parse, noCut, isSome, isBody]
    rfl
  · have isFirst : ¬ bodyMark <:+: (top ++ ['\n']) ++ bodyMark.dropLast := by
      rw [append_assoc, singleton_append, Text.isInfix_append_cons_iff (by decide), not_or]
      exact ⟨noMark, by decide⟩
    have isWhole : top ++ '\n' :: bodyMark ++ '\n' :: source =
        (top ++ ['\n']) ++ bodyMark ++ '\n' :: source := by simp
    rw [isWhole, parse_marked isFirst, Text.trim_append_of_isBlank (by decide),
      Header.parse_trim.mpr isHeader, Text.trim_cons_of_isBlank (by decide), isBody]
    rfl

/-- The mark of a body inside of a string is no mark behind a header. -/
theorem parse_sections_marked :
    Script.parse "%dw 2.0\n---\n\"a---b\"".toList = .ok ⟨Header.plain, .text "a---b"⟩ := by
  have isRead : Expr.parse "\"a---b\"".toList = .ok (.text "a---b") := by cbv
  obtain ⟨body, isBody, _, _, behind⟩ := parse_sections isRead
  cases isBody.symm.trans
    (show Expr.parse (Text.trim "\"a---b\"".toList) = .ok (.text "a---b") by cbv)
  exact behind "%dw 2.0".toList Header.plain rfl
    ((Text.cutAt?_eq_none_iff (by decide) _).mp (by decide))

end Script

/-! ## Lines of variables -/

/-- The text of a line that declares a variable. -/
def VariableDecl.line (name : String) (value : List Char) : List Char :=
  "var ".toList ++ (name.toList ++ (" = ".toList ++ value))

/-- A name of a variable, as far as the line that declares it goes. -/
structure VariableDecl.IsName (name : List Char) : Prop where
  starts : ∃ first rest, name = first :: rest ∧ Text.isBlank first = false
  endsPlain : Text.EndsPlain name
  noAssignment : '=' ∉ name

theorem Header.Line.means_variable {name : String} (isName : VariableDecl.IsName name.toList)
    (isRead : Expr.parse (trim value) = .ok expr) :
    Means (VariableDecl.line name value) (.variable ⟨name, expr⟩) := by
  obtain ⟨first, rest, nameShape, notBlank⟩ := isName.starts
  have isSign : isBlank '=' = false := by decide
  have isSpace : isBlank ' ' := by decide
  let ended := dropEndWhile isBlank (' ' :: value)
  let behind := (name.toList ++ [' ']) ++ '=' :: ended
  have nameTrimmed : trim (name.toList ++ [' ']) = name.toList := by
    rw [trim_append_of_isBlank isSpace]
    have nameEndsPlain := isName.endsPlain
    rw [nameShape] at nameEndsPlain ⊢
    exact nameEndsPlain.trim_cons notBlank
  have behindTrimmed : trim behind = behind := by
    rw [trim_append_cons isSign]
    simp [behind, ended, nameShape, trimStart, notBlank, dropEndWhile, dropWhile_idempotent]
  have lineTrimmed : trim (VariableDecl.line name value) = "var ".toList ++ behind := by
    have shape : VariableDecl.line name value =
        ("var ".toList ++ (name.toList ++ [' '])) ++ '=' :: (' ' :: value) := by
      simp [VariableDecl.line]
    rw [shape, trim_append_cons isSign]
    simp [behind, ended, trimStart, show isBlank 'v' = false by decide]
  have cut : cutAt? ['='] behind = some (name.toList ++ [' '], ended) := by
    have noAssignment : ¬ ['='] <:+: (name.toList ++ [' ']) ++ ['='].dropLast := by
      intro inside
      have mem := inside.subset (mem_singleton.mpr rfl)
      simp [isName.noAssignment] at mem
    simpa [behind] using cutAt?_append noAssignment ended
  have valueTrimmed : trim ended = trim value := by
    rw [trim_dropEndWhile, trim_cons_of_isBlank isSpace]
  refine ⟨fun number => ?_, rfl⟩
  have declared : VariableDecl.read behind number = .ok ⟨name, expr⟩ := by
    have notEmpty : name.toList.isEmpty = false := by simp [nameShape]
    unfold VariableDecl.read
    simp only [cut, nameTrimmed, notEmpty, valueTrimmed, isRead, String.ofList_toList]
    rfl
  have isDirective : directive? "var " ("var ".toList ++ behind) = some behind := by
    rw [directive?, after?_append_self, Option.map_some, behindTrimmed]
  rw [lineTrimmed]
  unfold Header.Line.read
  rw [isDirective]
  simp [startsWith, after?, directive?, declared]

end Weave
