import Weave.Proofs.Eval.Reduction
import Weave.Proofs.Exchange.Values
import Weave.Proofs.Value.Order

namespace Weave

/-!
# Sequences

A function of sequences has two spellings, between its operands and in front of them, and each runs
an implementation of its own.  They agree except on objects, of which one filters the values and the
other the entries, and on null, which is an empty list to one and nothing to the other.  Differences
of lists keep what is equal to none of the removed items, and distinct items are those whose key is
equal to none before.
-/

open List Value

namespace Core

/-! ## Two implementations of one name -/

section Spellings

variable (call : Caller) {operand : Value} (callee : Function)

/-- Of an object one gives a list and the other an object. -/
theorem filterItems_ne_filter (isObject : operand.isObject)
    (isItems : (filterItems call operand (.function callee)).result = .ok value) :
    (filter call operand (.function callee)).result ≠ .ok value := by
  intro isEntries
  cases operand with
  | object =>
    obtain ⟨_, _, _, _, isList⟩ := by
      simpa only [filterItems, keepItems, Outcome.result_bind_eq_ok] using isItems
    obtain ⟨_, _, isObject⟩ := Outcome.result_bind_eq_ok.mp isEntries
    cases isList
    cases isObject
  | _ => cases isObject

end Spellings

/-! ## Differences -/

/-- Items are taken from a list if all items of both lists can be members of a set. -/
theorem withoutItems_eq (items removed : List Value) : withoutItems items removed =
      if items.all isMember && removed.all isMember then
        .ok (items.filter fun item => !removed.contains item)
      else .error (.defect .operands) := by
  have asked : removed.forM requireMember =
      if removed.all isMember then .ok () else .error (.defect .operands) := by
    induction removed with
    | nil => rfl
    | cons first _ ih =>
      rw [List.forM, ih, requireMember, all_cons]
      cases first.isMember <;> rfl
  have kept (holds : Value → Bool) (found : List Value) :
      (items.filterAuxM (fun item => do
        item.requireMember
        return holds item) found : Except Fault (List Value)) =
      if items.all isMember then .ok ((items.filter holds).reverse ++ found)
      else .error (.defect .operands) := by
    induction items generalizing found with
    | nil => rfl
    | cons first _ ih =>
      rw [filterAuxM, requireMember, all_cons, filter_cons]
      cases first.isMember with
      | false => rfl
      | true =>
        refine (ih _).trans ?_
        cases holds first <;> simp
  rw [withoutItems, asked, filterM, kept]
  cases items.all isMember <;> cases removed.all isMember <;>
    simp [bind, Except.bind, pure, Except.pure]

theorem diff_list (origin other : Origin) (items removed : List Value) :
    diff (.list origin items) (.list other removed) =
      if items.all isMember && removed.all isMember then
        .ok (.array (items.filter fun item => !removed.contains item))
      else .error (.defect .operands) := by
  rw [diff, withoutItems_eq]
  split <;> rfl

/-- A function or an undefined number.  Of these it depends on where they come from whether they are
equal to themselves. -/
def isElusive : Value → Bool
  | .function _ => true
  | .float value => value.isNaN
  | _ => false

theorem same_of_place {value : Value} {number : Number} (isNumber : value.number? = some number)
    (isPlace : number.place? = some place) :
    value.same value := by
  have same : number.same number := Number.same_iff.mpr ⟨place, isPlace, isPlace⟩
  cases value <;> simp_all [number?, Value.same]

theorem sameItems_self {items : List Value} (same : ∀ item ∈ items, item.same item) :
    sameItems items items := by
  induction items with
  | nil => rw [sameItems]
  | cons _ _ ih =>
    rw [forall_mem_cons] at same
    rw [sameItems, same.1, ih same.2, Bool.and_self]

/-- A member of a set is equal to itself, unless that is not fixed. -/
theorem same_self {value : Value} (isMember : value.isMember)
    (settled : value.holds isElusive = false) :
    value.same value := by
  induction value using Value.byParts with
  | scalar value isScalar =>
    cases value with
    | bool | int => exact same_of_place rfl rfl
    | float =>
      obtain ⟨_, isPlace⟩ := Number.exists_place settled
      exact same_of_place rfl isPlace
    | list | tuple | object | function => cases isScalar
    | clock => simp [Value.same, Calendar.Clock.same]
    | moment => simp [Value.same, Calendar.Moment.same, Calendar.Moment.comparable]
    | _ => simp [Value.same]
  | list | object => cases isMember
  | tuple items ih =>
    have members : areMembers items := isMember
    rw [areMembers_eq_all, all_eq_true] at members
    simp only [holds, isElusive, Bool.false_or, someHolds_eq_any, any_eq_false, Bool.not_eq_true]
      at settled
    rw [Value.same]
    exact sameItems_self fun item isItem =>
      ih item isItem (members item isItem) (settled item isItem)
  | function => cases settled

/-- A difference of lists keeps the items that are equal to none of the others, in order, so taking
the same items once more changes nothing, they may be taken from the parts of a concatenation, and
nothing is left if all items are taken.  It fails if an item of either list cannot be a member of a
set, as lists and objects cannot. -/
theorem difference_removes_equal_items (origin other : Origin) (left : List Value)
    {right : List Value} (settled : ∀ item ∈ right, item.holds isElusive = false) :
    let without (items : Value) : Except Fault Value := diff items (.list other right)
    without (.list origin left) =
        (if ∀ item ∈ left ++ right, item.isMember = true then
          .ok (.array (left.filter fun item => right.all fun removed => !(item == removed)))
        else .error (.defect .operands)) ∧
      (without (.list origin left) >>= without) = without (.list origin left) ∧
      (∀ more,
        (concat (.list origin left) (.list origin more) >>= without) =
          (do
            let first ← without (.list origin left)
            let second ← without (.list origin more)
            concat first second)) ∧
      (left ⊆ right → (∀ item ∈ right, item.isMember = true) →
        without (.list origin left) = .ok (.array [])) := by
  intro without
  have isFiltered : without (.list origin left) =
      (if ∀ item ∈ left ++ right, item.isMember = true then
        .ok (.array (left.filter fun item => right.all fun removed => !(item == removed)))
      else .error (.defect .operands)) := by
    simp only [without, diff_list, contains_eq_any_beq, not_any_eq_all_not, forall_mem_append,
      all_eq_true, Bool.and_eq_true]
  refine ⟨isFiltered, ?_, fun more => ?_, fun within areMembers => ?_⟩
  · simp only [without, diff_list]
    cases areMembers : left.all Value.isMember <;> cases isRight : right.all Value.isMember
    case true.true =>
      have kept (holds : Value → Bool) : (left.filter holds).all Value.isMember = true :=
        all_eq_true.mpr fun item member => all_eq_true.mp areMembers item (mem_of_mem_filter member)
      simp only [Bool.and_self, if_true, bind, Except.bind, diff_list, kept, isRight, filter_filter]
    all_goals rfl
  · simp only [without, diff_list, concat, bind, Except.bind, all_append, filter_append]
    cases left.all Value.isMember <;> cases more.all Value.isMember <;>
      cases right.all Value.isMember <;> rfl
  · have whole : ∀ item ∈ left ++ right, item.isMember = true :=
      forall_mem_append.mpr ⟨fun item isItem => areMembers item (within isItem), areMembers⟩
    rw [isFiltered, if_pos whole]
    refine congrArg (Except.ok ∘ Value.array) (filter_eq_nil_iff.mpr fun item isItem keeps => ?_)
    have isRemoved := within isItem
    have same : item == item := same_self (areMembers item isRemoved) (settled item isRemoved)
    simpa [same] using all_eq_true.mp keeps item isRemoved

/-- A truth value and the number that it is equal to are both taken. -/
theorem difference_removes_equal_items_one :
    diff (.array [.bool true, .text "a", .int 1]) (.array [.int 1]) = .ok (.array [.text "a"]) := by
  have same : (Number.int 1).same (.int 1) := by simp [Number.same, Number.compare?_int]
  have kept := (@difference_removes_equal_items .data .data [.bool true, .text "a", .int 1] [.int 1]
    (by decide)).1
  simpa [isMember, filter_cons, BEq.beq, Value.same, number?, same] using kept

/-! ## Distinct items -/

/-- Null, a boolean, a number or a text, which is not marked by another value; an undefined number
is left out, since it may be recognised although it is not equal to itself. -/
def isPlainKey : Value → Bool
  | .null | .bool _ | .int _ | .text _ => true
  | .float value => !value.isNaN
  | _ => false

/-- What a plain key stands for: the place of a number, a text or nothing. -/
def meant? : Value → Option (Number.Place ⊕ Option String)
  | .null => some (.inr none)
  | .text written => some (.inr (some written))
  | value => (value.number?.bind Number.place?).map .inl

theorem same_iff_meant {left right : Value} (isPlain : isPlainKey left)
    (isPlainToo : isPlainKey right) :
    left.same right ↔ ∃ meaning, meant? left = some meaning ∧ meant? right = some meaning := by
  cases left with
  | null | bool | int | float =>
    cases right with
    | null | bool | int | float | text =>
      simp [Value.same, meant?, number?, Number.same_iff]
    | _ => cases isPlainToo
  | text =>
    cases right with
    | null | bool | int | float => simp [Value.same, meant?, number?]
    | text => simpa [Value.same, meant?] using eq_comm
    | _ => cases isPlainToo
  | _ => cases isPlain

theorem same_trans {first second third : Value} (isFirst : isPlainKey first)
    (isSecond : isPlainKey second)
    (isThird : isPlainKey third) (same : first.same second) (further : second.same third) :
    first.same third := by
  obtain ⟨meaning, isMeant, isMiddle⟩ := (same_iff_meant isFirst isSecond).mp same
  obtain ⟨other, isMiddleToo, isOther⟩ := (same_iff_meant isSecond isThird).mp further
  obtain rfl := Option.some.inj (isMiddle.symm.trans isMiddleToo)
  exact (same_iff_meant isFirst isThird).mpr ⟨meaning, isMeant, isOther⟩

/-- The key of the item is equal to none in front of it. -/
def isFirst (key : Value × Nat → Value) (items : List (Value × Nat)) (item : Value × Nat) : Bool :=
  !((items.take item.2).map key).contains (key item)

/-- Only keys that were kept are asked for equal ones.  This tells as much as asking all keys so
far, because a key that was not kept is equal to one that was. -/
theorem result_distinctFrom {mark : Value × Nat → Outcome Value} {key : Value × Nat → Value}
    {done : List (Value × Nat)} {items seen : List Value} (isLength : done.length = place)
    (answers : ∀ item ∈ items.zipIdx place, (mark item).result = .ok (key item))
    (arePlain : ∀ item ∈ items.zipIdx place, isPlainKey (key item))
    (seenPlain : ∀ kept ∈ seen, isPlainKey kept)
    (knows : ∀ item ∈ items.zipIdx place,
      seen.contains (key item) = (done.map key).contains (key item)) :
    (distinctFrom mark seen (items.zipIdx place)).result =
      .ok (((items.zipIdx place).filter (isFirst key (done ++ items.zipIdx place))).map (·.1)) := by
  induction items generalizing done seen place with
  | nil => rfl
  | cons value items ih =>
    simp only [zipIdx_cons, forall_mem_cons] at answers arePlain knows
    have isMark : (key (value, place)).marker = .ok (key (value, place)) := by
      generalize key (value, place) = found at arePlain
      cases found <;> first | rfl | cases arePlain.1
    have isHead (rest : List (Value × Nat)) : isFirst key (done ++ rest) (value, place) =
        !seen.contains (key (value, place)) := by
      rw [isFirst, take_left' isLength, knows.1]
    have next := @ih (place + 1) (done ++ [(value, place)])
    have further (item : Value × Nat) :
        ((done ++ [(value, place)]).map key).contains (key item) =
          ((done.map key).contains (key item) || (key item).same (key (value, place))) := by
      simp [contains_eq_any_beq]
      rfl
    rw [zipIdx_cons, distinctFrom, Outcome.result_bind_of_ok answers.1, isMark,
      Outcome.result_bind_of_ok rfl, filter_cons, isHead, append_cons done]
    cases isSeen : seen.contains (key (value, place)) with simp only
    | true =>
      refine next (by simp [isLength]) answers.2 arePlain.2 seenPlain fun item mem => ?_
      rw [further, ← knows.2 item mem, eq_comm, Bool.or_eq_left_iff_imp]
      intro isSame
      obtain ⟨kept, isKept, same⟩ := contains_iff_exists_mem_beq.mp isSeen
      exact contains_iff_exists_mem_beq.mpr ⟨kept, isKept, same_trans (arePlain.2 item mem)
        arePlain.1 (seenPlain kept isKept) isSame same⟩
    | false =>
      refine Outcome.result_bind_of_ok (next (by simp [isLength]) answers.2 arePlain.2
        (forall_mem_append.mpr ⟨seenPlain, forall_mem_singleton.mpr arePlain.1⟩)
        fun item mem => ?_) _
      rw [further, ← knows.2 item mem]
      simp [contains_eq_any_beq]
      rfl

/-- Distinct items are those whose key is equal to none in front of it, as long as all keys are
null, booleans, numbers and texts. -/
theorem distinct_keeps_first_items (call : Caller) (callee : Function) (origin : Origin)
    {items : List Value} {key : Value × Nat → Value} (answers : ∀ item ∈ items.zipIdx,
      (invoke call (.function callee) (numbered item)).result = .ok (key item))
    (arePlain : ∀ item ∈ items.zipIdx, isPlainKey (key item)) :
    let kept := (items.zipIdx.filter (isFirst key items.zipIdx)).map (·.1)
    (distinctItems call (.list origin items) (.function callee)).result = .ok (.array kept) ∧
      (distinctBy call (.list origin items) (.function callee)).result = .ok (.array kept) := by
  have found := @result_distinctFrom 0 _ key [] items [] rfl answers arePlain nofun fun _ _ => rfl
  exact ⟨Outcome.result_bind_of_ok found _, Outcome.result_bind_of_ok found _⟩

/-- Of the truth value and the number that are equal the first is kept. -/
theorem distinct_keeps_first_items_equal :
    let items : List Value := [.bool true, .text "a", .int 1]
    let call : Caller := fun _ arguments => .value (arguments.headD .null)
    (distinctItems call (.array items) (.function (.plus 1 1))).result =
      .ok (.array [.bool true, .text "a"]) := by
  intro items call
  have same : (Number.int 1).same (.int 1) := by simp [Number.same, Number.compare?_int]
  have kept := @distinct_keeps_first_items call (.plus 1 1) .data items (·.1)
    (by simp [items, invoke, call, Outcome.value, numbered, Function.parameterCount?])
    (by simp [items, isPlainKey])
  simpa [items, isFirst, filter_cons, contains_eq_any_beq, BEq.beq, Value.same, number?, same,
    array] using kept.1

end Core

/-! ## Words between the operands -/

namespace Engine

/-- A word between an operand and a function has the outcome of its call, for `filter` unless the
operand is an object, of which it filters the values into a list, for `flatMap` and `distinctBy`
unless the operand is null, of which it makes an empty list. -/
theorem infix_word_agrees_with_call (setting : Setting) (depth : Nat) (ctx : Context)
    (position : Position) (left : Expr) (parameters : List (Parameter Expr)) (body : Expr)
    {logs : List LogEntry} {operand : Value}
    (evals : (upTo setting (depth + 1)).eval ctx left = ⟨logs, .ok operand⟩) :
    let infixed (word : String) : Outcome Value :=
      (upTo setting (depth + 2)).eval ctx
        (.binary (infixFunction word) left (.lambda parameters body))
    let prefixed (word : String) : Outcome Value :=
      (upTo setting (depth + 2)).eval ctx
        (.call (.name word position) [left, .lambda parameters body])
    (operand.isObject = false → infixed "filter" = prefixed "filter") ∧
    (operand.isObject = true → ∀ value,
      (infixed "filter").result = .ok value → (prefixed "filter").result ≠ .ok value) ∧
    ∀ word ∈ ["flatMap", "distinctBy"],
      (operand.isNull = false → infixed word = prefixed word) ∧ (operand.isNull = true →
        infixed word = ⟨logs, .ok (.array [])⟩ ∧ prefixed word = ⟨logs, .ok .null⟩) := by
  intro infixed prefixed
  let callee : Function := .lambda parameters body ctx.bindings ctx.payload
  let after (outcome : Outcome Value) : Outcome Value := ⟨logs ++ outcome.logs, outcome.result⟩
  have called {name : String} {builtin : Builtin} (isBuiltin : Builtin.named? name = some builtin)
      (position : Position) : (upTo setting (depth + 2)).eval ctx
          (.call (.name name position) [left, .lambda parameters body]) =
        after (builtin.runTwo (upTo setting depth).call operand (.function callee)) := by
    rw [eval_operator isBuiltin, evals]
    rfl
  have filtered : infixed "filter" = _ ∧ prefixed "filter" = _ :=
    ⟨@called _ .filterItems (by decide) _, @called _ .filter (by decide) _⟩
  have flatMapped : infixed "flatMap" = _ ∧ prefixed "flatMap" = _ :=
    ⟨@called _ .flatMapItems (by decide) _, @called _ .flatMap (by decide) _⟩
  have distinct : infixed "distinctBy" = _ ∧ prefixed "distinctBy" = _ :=
    ⟨@called _ .distinctItems (by decide) _, @called _ .distinctBy (by decide) _⟩
  have onNull :
      after (pure (.array [])) = ⟨logs, .ok (.array [])⟩ ∧
        after (pure .null) = ⟨logs, .ok .null⟩ := by
    simp [after, pure, Outcome.value]
  simp only [forall_mem_cons, filtered, flatMapped, distinct, not_mem_nil, false_implies,
    implies_true, and_true, ← onNull]
  refine ⟨fun noObject => ?_, fun isObject value => Core.filterItems_ne_filter _ _ isObject,
    ⟨fun noNull => ?_, fun isNull => ?_⟩, fun noNull => ?_, fun isNull => ?_⟩
  · cases operand <;> first | rfl | cases noObject
  · cases operand <;> first | rfl | cases noNull
  · cases operand <;> first | exact ⟨rfl, rfl⟩ | cases isNull
  · cases operand <;> first | rfl | cases noNull
  · cases operand <;> first | exact ⟨rfl, rfl⟩ | cases isNull

/-- `null flatMap ((x) -> x)` is an empty list and `flatMap(null, (x) -> x)` is null. -/
theorem infix_word_agrees_with_call_null : let engine := upTo ⟨⟨"", 0⟩, []⟩ 2
    let ctx : Context := ⟨.null, [], 0⟩
    let same : Expr := .lambda [⟨"x", none, none⟩] (.name "x" ⟨1, 1⟩)
    (engine.eval ctx (.binary (infixFunction "flatMap") .null same)).result = .ok (.array []) ∧
      (engine.eval ctx (.call (.name "flatMap" ⟨1, 1⟩) [.null, same])).result = .ok .null := by
  have both :=
    (infix_word_agrees_with_call ⟨⟨"", 0⟩, []⟩ 0 ⟨.null, [], 0⟩ ⟨1, 1⟩ .null [⟨"x", none, none⟩]
      (.name "x" ⟨1, 1⟩) rfl).2.2 "flatMap" (by simp)
  exact ⟨congrArg Outcome.result (both.2 rfl).1, congrArg Outcome.result (both.2 rfl).2⟩

end Engine
end Weave
