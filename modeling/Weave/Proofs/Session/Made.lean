import Weave.Module.Load
import Weave.Proofs.Eval.Made
import Weave.Proofs.Format.Held

namespace Weave

open List Value Making

/-!
# What runs leave

A run evaluates what was read from scripts only: its own, and those of the modules that it imports.
So the functions that runs leave are made of such expressions, and so are those that later runs make
out of them.  Two evaluators that agree on such expressions give the same runs.
-/

variable {count index : Nat} {request : Request} {results : List Value}

variable {session : Session} {bindings : Bindings} {value : Value} {state : Bindings × Session}
  {job : Job}

/-! ## Sessions with good functions -/

/-- The functions of what the script works on have the property. -/
structure Job.All (holds : Function → Prop) (job : Job) : Prop where
  payload : job.payload.All holds
  bindings : AllUnder holds job.bindings

/-- The evaluators leave the same on fine expressions among functions that there may be after so
many runs, and the value has such functions only. -/
def Evaluator.Shares (making : Making) (evaluate other : Evaluator) : Prop :=
  ∀ {count : Nat} {setting : Setting} {ctx : Context} {expr : Expr},
    FramesAll (making.Holds count) setting.frames → ctx.All (making.Holds count) →
      making.fine expr →
        Outcome.Shares (Value.All (making.Holds count)) (evaluate setting ctx expr)
          (other setting ctx expr)

/-- There are at least so many headers, and the functions of them and what is given have those
functions that there may be. -/
structure Session.Holds (making : Making) (count : Nat) (given : (Function → Prop) → Prop)
    (session : Session) : Prop where
  isLater : count ≤ session.frames.length
  frames : FramesAll (making.Holds session.frames.length) session.frames
  given : given (making.Holds session.frames.length)

variable {making : Making} {holds : Function → Prop}

theorem FramesAll.snoc {frames : List Frame}
    (inFrames : FramesAll (making.Holds frames.length) frames) {frame : Frame}
    (inFrame : frame.All (making.Holds (frames.length + 1))) :
    FramesAll (making.Holds (frames.length + 1)) (frames ++ [frame]) := by
  refine forall_mem_append.mpr ⟨fun other mem => ?_, forall_mem_singleton.mpr inFrame⟩
  obtain ⟨payload, bindings⟩ := inFrames other mem
  exact ⟨all_mono (Nat.le_succ _) payload, allUnder_mono (Nat.le_succ _) bindings⟩

theorem Job.All.mono (isLater : count ≤ later) (inJob : job.All (making.Holds count)) :
    job.All (making.Holds later) :=
  ⟨all_mono isLater inJob.payload, allUnder_mono isLater inJob.bindings⟩

namespace Session

theorem declareFunction_all (all : AllUnder (making.Holds count) bindings)
    (isDeclared : making.declares count index decl) :
    AllUnder (making.Holds count) (declareFunction index bindings decl) := by
  unfold declareFunction
  split
  case _ alts found =>
    have known := holds_overloaded (all_function.mp (all.lookup found))
    refine all.set _ (all_function.mpr (.overloaded ?_))
    exact forall_mem_append.mpr ⟨known, forall_mem_singleton.mpr isDeclared⟩
  case _ frame first found =>
    have known := holds_declared (all_function.mp (all.lookup found))
    refine all.set _ (all_function.mpr (.overloaded ?_))
    simpa using ⟨known, isDeclared⟩
  · exact all.set _ (all_function.mpr (.declared isDeclared))

theorem parse_leaves (making : Making) (source : String) :
    Leaves (Script.IsMadeOf making.fine) (parse source) := by
  unfold parse
  split
  case _ script isRead => exact .ok (making.fine_script isRead)
  · exact .error _

theorem payloadOf_leaves (all : request.job.payload.All holds) :
    Leaves (Value.All holds) (payloadOf request) := by
  unfold payloadOf
  split
  · exact .ok all
  · split
    case _ value isRead => exact .ok (Format.readNamed_leaves _ _ all value isRead)
    · exact .error _

end Session

namespace Module

theorem alternative?_holds (all : value.All holds) (isAlternative : alternative? value = some alt) :
    holds alt.2 := by
  unfold alternative? at isAlternative
  split at isAlternative
  · split at isAlternative
    case _ callee found =>
      obtain rfl := Option.some.inj isAlternative
      exact all_function.mp ((all_object.mp all).lookup found)
    · cases isAlternative
  · obtain rfl := Option.some.inj isAlternative
    exact all_function.mp all
  · cases isAlternative

theorem export?_holds (all : value.All (making.Holds count))
    (exported : export? value = some callee) :
    making.Holds count callee := by
  unfold export? at exported
  split at exported
  · obtain rfl := Option.some.inj exported
    exact all_function.mp all
  case _ items =>
    have areMade :
        ∀ alt ∈ items.filterMap alternative?, making.Holds count alt.2 := by
      intro alt mem
      obtain ⟨item, isItem, isAlternative⟩ := mem_filterMap.mp mem
      exact alternative?_holds (all_list.mp all item isItem) isAlternative
    split at exported
    · cases exported
    case _ only isOnly =>
      obtain rfl := Option.some.inj exported
      exact areMade (none, only) (isOnly ▸ mem_cons_self)
    · obtain rfl := Option.some.inj exported
      exact .dispatch areMade
  · cases exported

theorem exportsOf_all (all : value.All (making.Holds count)) :
    AllUnder (making.Holds count) (exportsOf value) := by
  unfold exportsOf
  split
  · intro binding mem
    obtain ⟨entry, isEntry, exported⟩ := mem_filterMap.mp mem
    obtain ⟨callee, isExport, rfl⟩ := Option.map_eq_some_iff.mp exported
    exact all_function.mpr (export?_holds (all_object.mp all entry isEntry) isExport)
  · exact .nil

theorem coreVariables_all (count : Nat) : AllUnder (making.Holds count) coreVariables := by
  intro binding mem
  obtain ⟨builtin, _, rfl⟩ := mem_map.mp mem
  exact all_function.mpr (.builtin builtin)

theorem selected_all (names : List Char) {exports : Bindings} (all : AllUnder holds exports) :
    AllUnder holds (selected names exports) := by
  unfold selected
  split
  · exact all
  · intro binding mem
    obtain ⟨entry, _, isSelected⟩ := mem_filterMap.mp mem
    obtain ⟨value, found, rfl⟩ := Option.map_eq_some_iff.mp isSelected
    exact all.lookup found

end Module

/-! ## Runs with two evaluators -/

section

variable {evaluate other : Evaluator} (evaluators : Evaluator.Shares making evaluate other)

include evaluators

namespace Session

section

variable (inFrames : FramesAll (making.Holds session.frames.length) session.frames)
  (ambient : Ambient)

include inFrames

theorem declareVariables_shares {payload : Value}
    (inPayload : payload.All (making.Holds (session.frames.length + 1)))
    (all : AllUnder (making.Holds (session.frames.length + 1)) bindings)
    (areFine : ∀ decl ∈ decls, making.fine decl.value) :
    Outcome.Shares (AllUnder (making.Holds (session.frames.length + 1)))
      (session.declareVariables ambient payload bindings decls evaluate)
      (session.declareVariables ambient payload bindings decls other) := by
  induction decls generalizing bindings with
  | nil => exact .pure all
  | cons _ _ ih =>
    rw [forall_mem_cons] at areFine
    refine .bind (evaluators (inFrames.snoc ⟨inPayload, all⟩) ⟨inPayload, all⟩ areFine.1)
      fun value inValue => ?_
    exact ih (all.set _ inValue) areFine.2

theorem runScript_shares (inImported : AllUnder (making.Holds session.frames.length) imported)
    {script : Script} (isMade : script.IsMadeOf making.fine)
    (inJob : job.All (making.Holds session.frames.length)) :
    Outcome.Shares (fun found => found.2.Holds making session.frames.length (Value.All · found.1))
      (session.runScript ambient imported script job evaluate)
      (session.runScript ambient imported script job other) := by
  have inPayload := all_mono (Nat.le_succ _) inJob.payload
  have inKnown := allUnder_mono (Nat.le_succ _) (inJob.bindings.setAll inImported)
  refine .bind
    (declareVariables_shares evaluators inFrames ambient inPayload
      (foldlRecOn _ _ inKnown fun _ all decl mem =>
        declareFunction_all all (making.declares_new _ (isMade.functions decl mem)))
      isMade.bindings)
    fun bindings all => ?_
  have inFrame : Frame.All _ ⟨job.payload, bindings⟩ := ⟨inPayload, all⟩
  have frames := inFrames.snoc inFrame
  have holds
      {finished : Value} (inFinished : finished.All (making.Holds (session.frames.length + 1))) :
      Session.Holds making session.frames.length (Value.All · finished)
        ⟨session.frames ++ [⟨job.payload, bindings⟩]⟩ := by
    constructor <;> simp only [length_append, length_singleton]
    · exact Nat.le_succ _
    · exact frames
    · exact inFinished
  refine .bind (.tryCatch (evaluators frames ⟨inPayload, all⟩ isMade.body) fun raised => .throw _)
    fun result inResult => ?_
  split
  · refine .bind (.any _) fun directive _ => ?_
    exact .bind (.lift (OutputDirective.finish_leaves directive inResult))
      fun finished inFinished => .pure (holds inFinished)
  · exact .bind (.lift (unmarked_leaves inResult))
      fun finished inFinished => .pure (holds inFinished)

end

end Session

namespace Module

section

variable (inFrames : FramesAll (making.Holds session.frames.length) session.frames)
  (ambient : Ambient)

include inFrames

theorem runSource_shares (source : String) : Outcome.Shares
      (fun found => found.2.Holds making session.frames.length (AllUnder · found.1))
      (runSource session ambient source evaluate)
      (runSource session ambient source other) := by
  have inJob :
      Job.All (making.Holds session.frames.length) ⟨source, .record [], coreVariables, true⟩ :=
    ⟨all_object.mpr .nil, coreVariables_all _⟩
  refine .tryCatch ?_ fun raised => .pure ⟨Nat.le_refl _, inFrames, .nil⟩
  refine .bind (.bind (.lift (Session.parse_leaves making source)) fun _ isMade =>
    Session.runScript_shares evaluators inFrames ambient .nil isMade inJob) ?_
  exact fun found holds => .pure ⟨holds.isLater, holds.frames, exportsOf_all holds.given⟩

theorem load_shares (library : Library) (name : String) : Outcome.Shares
      (fun found => found.2.Holds making session.frames.length (AllUnder · found.1))
      (load library session ambient name evaluate)
      (load library session ambient name other) := by
  unfold load
  split
  · exact .pure ⟨Nat.le_refl _, inFrames, .nil⟩
  · dsimp only
    split
    · exact .throw _
    · exact runSource_shares evaluators inFrames ambient _

end

variable (library : Library) (ambient : Ambient) {count : Nat}

theorem importOne_shares (holds : state.2.Holds making count (AllUnder · state.1))
    (directive : String) :
    Outcome.Shares (fun found => found.2.Holds making count (AllUnder · found.1))
      (importOne library ambient state directive evaluate)
      (importOne library ambient state directive other) := by
  unfold importOne
  split
  · exact .pure holds
  case _ names name _ =>
    have exported :
        Outcome.Shares
          (fun found => found.2.Holds making state.2.frames.length (AllUnder · found.1))
          (exports library state.2 ambient (String.ofList (Text.trim name)) evaluate)
          (exports library state.2 ambient (String.ofList (Text.trim name)) other) :=
      .bind (load_shares evaluators holds.frames ambient library _) fun found after =>
        .pure ⟨after.isLater, after.frames, foldlRecOn _ _ after.given fun _ all builtin _ =>
          all.setNew _ (all_function.mpr (.builtin builtin))⟩
    refine .bind exported fun found after =>
      .pure ⟨Nat.le_trans holds.isLater after.isLater, after.frames, ?_⟩
    exact (allUnder_mono after.isLater holds.given).setAll (selected_all names after.given)

theorem importAll_shares (holds : state.2.Holds making count (AllUnder · state.1))
    (directives : List String) :
    Outcome.Shares (fun found => found.2.Holds making count (AllUnder · found.1))
      (importAll library ambient state directives evaluate)
      (importAll library ambient state directives other) := by
  induction directives generalizing state with
  | nil => exact .pure holds
  | cons directive _ ih =>
    exact .bind (importOne_shares evaluators library ambient holds directive)
      fun found foundHolds => ih foundHolds

end Module

/-- A run leaves the same with both evaluators, and functions such as there may be then. -/
theorem Session.runUsing_shares
    (inFrames : FramesAll (making.Holds session.frames.length) session.frames) (ambient : Ambient)
    (library : Option Library) (inJob : request.job.All (making.Holds session.frames.length)) :
    Outcome.Shares (fun found => found.2.Holds making session.frames.length (Value.All · found.1))
      (session.runUsing evaluate ambient library request)
      (session.runUsing other ambient library request) := by
  refine .bind (.lift (payloadOf_leaves inJob.payload)) fun payload inPayload => ?_
  have inGiven :
      Job.All (making.Holds session.frames.length)
        { request.job with
          payload := payload.normalise
          bindings := request.job.bindings.map fun given => (given.1, given.2.normalise) } := by
    refine ⟨all_normalise inPayload, fun binding mem => ?_⟩
    obtain ⟨given, isGiven, rfl⟩ := mem_map.mp mem
    exact all_normalise (inJob.bindings given isGiven)
  refine .bind (.lift (parse_leaves making _)) fun script isMade => ?_
  cases library with
  | none =>
    exact runScript_shares evaluators inFrames ambient .nil isMade inGiven
  | some library =>
    refine .bind
      (Module.importAll_shares evaluators library ambient ⟨Nat.le_refl _, inFrames, .nil⟩
        script.header.imports)
      fun found imported => ?_
    have later :=
      runScript_shares evaluators imported.frames ambient imported.given isMade
        (inGiven.mono imported.isLater)
    exact ⟨later.same, later.value.imp fun after holds =>
      ⟨Nat.le_trans imported.isLater holds.isLater, holds.frames, holds.given⟩⟩

end

/-- Evaluating a fine expression leaves functions such as there may be. -/
theorem Evaluator.eval_shares_eval (making : Making) :
    Evaluator.Shares making Expr.eval Expr.eval :=
  fun inFrames inContext isFine =>
    eval_shares
      (Engine.upTo_follows (fun _ _ => rfl) (settings inFrames) Engine.depth) inContext
      isFine

/-! ## Runs one after the other -/

/-- Every function that is handed in was left by an earlier run. -/
def Job.HandsBack (results : List Value) (job : Job) : Prop :=
  ∀ value ∈ job.payload :: job.bindings.map Prod.snd, ∀ callee ∈ value.functions,
    ∃ result ∈ results, callee ∈ result.functions

/-- The sessions that runs lead to, with the values that these runs have left. -/
inductive Session.Reached : Session → List Value → Prop
  | fresh : Reached Session.fresh []
  | run {session after : Session} {results : List Value}
      {ambient : Ambient} {library : Option Library} {request : Request} {value : Value}
      (reached : Reached session results) (handsBack : request.job.HandsBack results)
      (left : (session.run ambient library request).result = .ok (value, after)) :
      Reached after (value :: results)

theorem Job.all_of_handsBack (inResults : ∀ result ∈ results, result.All holds)
    (handsBack : job.HandsBack results) :
    job.All holds := by
  have handed : ∀ value ∈ job.payload :: job.bindings.map Prod.snd, value.All holds := by
    intro value isHanded callee held
    obtain ⟨result, isResult, inResult⟩ := handsBack value isHanded callee held
    exact inResults result isResult callee inResult
  rw [forall_mem_cons] at handed
  exact ⟨handed.1, fun binding mem => handed.2 binding.2 (mem_map_of_mem mem)⟩

/-- The headers of runs and the values that they have left hold functions such as there may be. -/
theorem Session.Reached.hold (making : Making) (reached : session.Reached results) :
    session.Holds making 0 fun holds => ∀ result ∈ results, result.All holds := by
  induction reached with
  | fresh => exact ⟨Nat.le_refl _, by simp [FramesAll, Session.fresh], by simp⟩
  | @run _ after _ ambient library _ value _ handsBack left ih =>
    obtain ⟨_, inFrames, inResults⟩ := ih
    have shares :=
      runUsing_shares (Evaluator.eval_shares_eval making) inFrames ambient library
        (Job.all_of_handsBack inResults handsBack)
    obtain ⟨isLater, frames, inValue⟩ := shares.value (value, after) left
    refine ⟨Nat.zero_le _, frames, forall_mem_cons.mpr ⟨inValue, fun result mem => ?_⟩⟩
    exact all_mono isLater (inResults result mem)

end Weave
