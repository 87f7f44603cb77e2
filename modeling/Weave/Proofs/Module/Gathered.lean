import Weave.Module.Source
import Weave.Proofs.Core.Groups
import Weave.Proofs.Reader
import Weave.Proofs.Text.Lines

namespace Weave.Module

open List

/-!
# The functions that a module keeps

Each function of a module is kept if its body can be read.  The functions that are kept are gathered
under their names: no name comes twice, none is without a function, and no function is lost.  The
body of each of them stands on one line.
-/

/-- The functions of a module, comments and annotations aside. -/
def functionsOf (source : String) : List Written :=
  let text := cleaned source.toList
  functionsFrom (text.length + 1) text

/-- The function is kept under a name. -/
def Written.IsKept (function : Written) (name : String) (overload : Overload) : Prop :=
  String.ofList function.name = name ∧ overload? function = .ok (some overload)

/-- The function stands among those that are gathered under a name. -/
def Gathers (groups : List (String × List Overload)) (name : String) (overload : Overload) : Prop :=
  ∃ overloads, (name, overloads) ∈ groups ∧ overload ∈ overloads

/-! ## Bodies on one line -/

theorem isLine_onOneLine (text : List Char) : Text.IsLine (onOneLine text) := by
  rw [onOneLine, Text.joinWith_eq_intercalate]
  refine Text.isLine_intercalate (by decide) fun line mem => ?_
  obtain ⟨inLines, _⟩ := mem_filter.mp mem
  obtain ⟨whole, inText, rfl⟩ := mem_map.mp inLines
  exact fun char isPart =>
    Text.isLine_of_mem_lines inText char ((Text.trim_isInfix whole).subset isPart)

theorem endsPlain_onOneLine (isSome : onOneLine text ≠ []) : Text.EndsPlain (onOneLine text) := by
  rw [onOneLine, Text.joinWith_eq_intercalate] at isSome ⊢
  refine Text.endsPlain_intercalate (fun isNil => isSome (by rw [isNil]; rfl)) ?_
  intro line mem
  obtain ⟨inLines, notEmpty⟩ := mem_filter.mp mem
  obtain ⟨whole, _, rfl⟩ := mem_map.mp inLines
  cases isLast : (Text.trim whole).getLast? with
  | none => simp [getLast?_eq_none_iff.mp isLast] at notEmpty
  | some last => exact ⟨last, isLast, Text.not_isBlank_of_getLast?_trim isLast⟩

/-- The body of a function can be read, and stands on one line that ends with no blank. -/
structure Overload.IsReadable (overload : Overload) : Prop where
  isRead : ∃ expr, Expr.parse overload.body.toList = .ok expr
  isLine : Text.IsLine overload.body.toList
  endsPlain : Text.EndsPlain overload.body.toList

theorem exists_onOneLine_of_simplifyBody (isSome : simplifyBody body ≠ []) :
    ∃ text, simplifyBody body = onOneLine text := by
  have ofPlain (body : List Char) : ∃ text, plainBody body = onOneLine text := by
    unfold plainBody
    split
    · exact ⟨_, rfl⟩
    · exact ⟨_, rfl⟩
  unfold simplifyBody at isSome ⊢
  dsimp only at isSome ⊢
  split at isSome
  · exact ofPlain _
  · split at isSome
    · exact absurd rfl isSome
    · split at isSome
      · exact absurd rfl isSome
      · rename_i noDeclarations
        rw [if_neg noDeclarations]
        exact ofPlain _

theorem Overload.isReadable_of_overload? {overload : Overload}
    (isKept : overload? fn = .ok (some overload)) :
    overload.IsReadable := by
  unfold overload? at isKept
  dsimp only at isKept
  split at isKept
  · cases isKept
  · rename_i isUsed
    simp only [Bool.or_eq_true, not_or, List.isEmpty_iff] at isUsed
    split at isKept
    · rename_i expr isRead
      obtain rfl := Option.some.inj (Except.ok.inj isKept)
      obtain ⟨text, isText⟩ := exists_onOneLine_of_simplifyBody isUsed.1
      rw [isText] at isRead isUsed
      refine ⟨⟨expr, ?_⟩, ?_, ?_⟩
      · simpa [isText] using isRead
      · simpa [isText] using isLine_onOneLine text
      · simpa [isText] using endsPlain_onOneLine isUsed.1
    · cases isKept
    · cases isKept

/-! ## Gathering -/

theorem addOverload_eq_addTo (name : String) (overload : Overload)
    (groups : List (String × List Overload)) :
    addOverload name overload groups = Core.addTo name overload groups := by
  induction groups with
  | nil => rfl
  | cons _ _ ih => simp [addOverload, Core.addTo, ih]

/-- No name comes twice, and none is without functions. -/
structure AreGrouped (groups : List (String × List Overload)) : Prop where
  distinct : (groups.map (·.1)).Nodup
  notEmpty : ∀ group ∈ groups, group.2 ≠ []

/-- Gathering goes from function to function: one that is not kept leaves the groups as they are. -/
theorem exists_step_gathered (fns : List Written) :
    ∃ step : List (String × List Overload) → Written →
        Except ParseFault (List (String × List Overload)),
      gathered fns = fns.foldlM step [] ∧
        ∀ groups fn after, step groups fn = .ok after →
          (overload? fn = .ok none ∧ after = groups) ∨
            ∃ kept, overload? fn = .ok (some kept) ∧
              after = addOverload (String.ofList fn.name) kept groups := by
  refine ⟨_, rfl, fun groups fn after isAfter => ?_⟩
  rw [except_bind_eq_ok] at isAfter
  obtain ⟨kept?, isKept, isAfter⟩ := isAfter
  cases kept? with
  | none => exact .inl ⟨isKept, (Except.ok.inj isAfter).symm⟩
  | some kept => exact .inr ⟨kept, isKept, (Except.ok.inj isAfter).symm⟩

/-- What is gathered is what is kept of the functions, under their names. -/
theorem gathers_iff_of_gathered (isGathered : gathered fns = .ok groups) : AreGrouped groups ∧
      ∀ name overload, Gathers groups name overload ↔ ∃ fn ∈ fns, fn.IsKept name overload := by
  obtain ⟨step, isFold, stepped⟩ := exists_step_gathered fns
  have fromAny (before : List (String × Overload)) (groups)
      (folded : fns.foldlM step (Core.gather before) = .ok groups) :
      ∃ kept, groups = Core.gather (before ++ kept) ∧
        ∀ name overload, (name, overload) ∈ kept ↔ ∃ fn ∈ fns, fn.IsKept name overload := by
    clear isFold isGathered
    induction fns generalizing before with
    | nil => exact ⟨[], by rw [append_nil]; exact (Except.ok.inj folded).symm, by simp⟩
    | cons _ _ ih =>
      rw [foldlM_cons, except_bind_eq_ok] at folded
      obtain ⟨middle, isMiddle, folded⟩ := folded
      simp only [exists_mem_cons_iff, Written.IsKept]
      rcases stepped _ _ _ isMiddle with ⟨isKept, rfl⟩ | ⟨kept, isKept, rfl⟩
      · obtain ⟨more, areGroups, areKept⟩ := ih _ folded
        exact ⟨more, areGroups, by simp [isKept, areKept, Written.IsKept]⟩
      · rw [addOverload_eq_addTo, ← Core.gather_concat before (_, kept)] at folded
        obtain ⟨more, areGroups, areKept⟩ := ih _ folded
        refine ⟨_ :: more, by rw [areGroups, append_assoc, singleton_append], fun name overload =>
          ?_⟩
        simp [isKept, areKept, Written.IsKept, eq_comm]
  rw [isFold] at isGathered
  obtain ⟨kept, rfl, areKept⟩ := fromAny [] groups isGathered
  obtain ⟨distinct, notEmpty, gathers⟩ := Core.gather_spec kept
  exact ⟨⟨distinct, notEmpty⟩, fun name overload =>
    (gathers name overload).trans (areKept name overload)⟩

end Weave.Module
