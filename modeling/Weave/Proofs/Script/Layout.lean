import Weave.Proofs.Script.Written
import Weave.Session

namespace Weave

open List

/-!
# How a script is laid out

A script has the lines of its header, a line with the mark of the body, and the body, with blanks in
front of it and behind it.  Reading a script cuts it at the mark and trims the body, so a place of
the body is no longer a place of the script; running it counts the lines up to the mark.
-/

/-- The parts of a script: the lines of its header, the blanks behind the mark of the body, the
blanks in front of the body, the body, and the blanks behind it. -/
structure Script.Layout where
  lines : List (List Char)
  margin : List Char
  gap : List Char
  body : List Char
  tail : List Char
  areLines : ∀ line ∈ lines, Text.IsLine line
  noMarks : ∀ line ∈ lines, ¬ bodyMark <:+: line
  marginIsLine : Text.IsLine margin
  marginBlank : ∀ blank ∈ margin, Text.isBlank blank = true
  gapBlank : ∀ blank ∈ gap, Text.isBlank blank = true
  tailBlank : ∀ blank ∈ tail, Text.isBlank blank = true
  startsPlain : ∀ first ∈ body.head?, Text.isBlank first = false
  endsPlain : Text.EndsPlain body

namespace Script.Layout

/-- The text of the header. -/
def top (layout : Layout) : List Char := layout.lines.flatMap (· ++ ['\n'])

/-- What stands in front of the body. -/
def lead (layout : Layout) : List Char :=
  layout.top ++ (bodyMark ++ layout.margin ++ ['\n'] ++ layout.gap)

/-- The text of the script. -/
def source (layout : Layout) : List Char := layout.lead ++ layout.body ++ layout.tail

/-- The number of the line with the mark. -/
def markLine (layout : Layout) : Nat := layout.lines.length + 1

variable (layout : Layout)

theorem parse_source : Script.parse layout.source =
      (do
        let header ← Header.parse (Text.trim layout.top)
        return ⟨header, ← Expr.parse layout.body⟩) := by
  have areBlank : ∀ blank ∈ layout.margin ++ ['\n'] ++ layout.gap, Text.isBlank blank := by
    simp only [forall_mem_append, forall_mem_singleton]
    exact ⟨⟨layout.marginBlank, by decide⟩, layout.gapBlank⟩
  have bodyTrimmed : Text.trim layout.body = layout.body := by
    refine Text.trim_eq_self layout.startsPlain fun last isLast => ?_
    obtain ⟨found, isFound, notBlank⟩ := layout.endsPlain
    obtain rfl := Option.some.inj (isFound.symm.trans isLast)
    exact notBlank
  have shape :
      layout.source =
        layout.top ++ bodyMark ++
          (layout.margin ++ ['\n'] ++ layout.gap ++ (layout.body ++ layout.tail)) := by
    simp [source, lead]
  rw [shape, top, parse_lines layout.noMarks, Text.trim_blanks_append areBlank,
    Text.trim_append_of_areBlank layout.tailBlank, bodyTrimmed]

theorem bodyLineOffset_source {source : String} (isSource : source.toList = layout.source) :
    Session.bodyLineOffset source = layout.markLine := by
  let isMark (line : List Char) : Bool := Text.trim line == bodyMark
  have parted :
      layout.source =
        layout.lines.flatMap (· ++ ['\n']) ++
          ((bodyMark ++ layout.margin) ++ '\n' :: (layout.gap ++ layout.body ++ layout.tail)) := by
    simp [Layout.source, lead, top]
  have markIsLine : Text.IsLine (bodyMark ++ layout.margin) :=
    Text.IsLine.append (by decide) layout.marginIsLine
  have areLines :
      Text.lines layout.source =
        layout.lines ++ (bodyMark ++ layout.margin) ::
          Text.lines (layout.gap ++ layout.body ++ layout.tail) := by
    rw [parted, Text.lines_flatMap_append layout.areLines]
    exact congrArg (layout.lines ++ ·) (Text.linesFrom_append markIsLine [] _)
  have noneBefore : layout.lines.findIdx? isMark = none := by
    rw [findIdx?_eq_none_iff]
    intro line mem
    rw [beq_eq_false_iff_ne]
    rintro isMarked
    exact layout.noMarks line mem (isMarked ▸ Text.trim_isInfix line)
  have markFound : isMark (bodyMark ++ layout.margin) := by
    rw [beq_iff_eq, Text.trim_append_of_areBlank layout.marginBlank]
    decide
  have found : (Text.lines layout.source).findIdx? isMark = some layout.lines.length := by
    rw [areLines, findIdx?_append, noneBefore, findIdx?_cons, markFound]
    simp
  rw [Session.bodyLineOffset, isSource]
  rw [found]
  rfl

/-- The body starts below the mark, as far down and to the right as the blanks in front of it go. -/
theorem behind_lead : Position.behind layout.lead =
      Position.beyond ⟨layout.markLine + 1, 1⟩ (.behind layout.gap) := by
  have shape :
      layout.lead = ((layout.top ++ bodyMark ++ layout.margin) ++ ['\n']) ++ layout.gap := by
    simp [lead]
  have count : (layout.top ++ bodyMark ++ layout.margin).count '\n' = layout.lines.length := by
    rw [count_append, count_append, top, Text.count_lineFeed_flatMap layout.areLines,
      layout.marginIsLine.count_lineFeed]
    rfl
  rw [shape, Position.behind_append, Position.behind_append_singleton, Position.next, if_pos rfl,
    Position.behind, count, markLine, Nat.add_comm 1]

end Script.Layout

end Weave
