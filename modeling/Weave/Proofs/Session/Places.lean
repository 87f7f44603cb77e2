import Weave.Module.Load
import Weave.Proofs.Eval.Offset
import Weave.Proofs.Expr.Places
import Weave.Proofs.Script.Layout
import Weave.Proofs.Session.Header

namespace Weave

/-!
# Where reports point

A body that cannot be read is reported with a place of the body, as if no header stood in front of
it.  A body that is evaluated is reported with the line of the mark added, but only for the names
that are looked up in the context of the body itself.
-/

/-! ## Places of the body in the script -/

/-- From the beginning of a line on, places only go down. -/
theorem Position.beyond_eq_lowered {pos : Position} (counts : pos.Counts) (count : Nat) :
    beyond ⟨count + 1, 1⟩ pos = pos.lowered count := by
  obtain ⟨line, column⟩ := pos
  obtain ⟨hasLine, hasColumn⟩ := counts
  obtain _ | _ | line := line
  · cases hasLine
  · rw [beyond, lowered, Nat.add_sub_cancel' hasColumn, Nat.add_comm]
  · simp only [beyond, lowered, mk.injEq, and_true]
    omega

namespace Script.Layout

variable (layout : Layout)

/-- Where a place of the body is in the script. -/
def place (position : Position) : Position := (Position.behind layout.lead).beyond position

theorem place_eq (pos : Position) :
    layout.place pos = ((Position.behind layout.gap).lowered layout.markLine).beyond pos := by
  rw [place, behind_lead, Position.beyond_eq_lowered (Position.counts_behind _)]

theorem line_lt_place {pos : Position} (isOf : pos.IsOf layout.body) :
    pos.line < (layout.place pos).line := by
  obtain ⟨before, _, _, rfl⟩ := isOf
  have isBelow : 1 < ((Position.behind layout.gap).lowered layout.markLine).line :=
    Nat.add_le_add (Position.counts_behind layout.gap).1 (Nat.le_add_left 1 _)
  rw [place_eq]
  exact Position.line_lt_beyond isBelow (Position.counts_behind before)

/-- Going down by the lines up to the mark leads to the place in the script if the body starts
right below the mark, and only then. -/
theorem lowered_eq_place_iff : (∀ pos, pos.IsOf layout.body →
        pos.lowered layout.markLine = layout.place pos) ↔
      layout.gap = [] := by
  constructor
  · intro areSame
    have first := areSame .start ⟨[], layout.body, rfl, rfl⟩
    rw [place_eq, Position.beyond_start, Position.lowered, Position.lowered,
      Position.mk.injEq] at first
    apply Position.eq_nil_of_behind
    rw [Position.mk.injEq]
    exact ⟨(Nat.add_right_cancel first.1).symm, first.2.symm⟩
  · rintro noGap pos ⟨before, _, _, rfl⟩
    have belowMark :
        (Position.behind layout.gap).lowered layout.markLine = ⟨layout.markLine + 1, 1⟩ := by
      rw [noGap, Nat.add_comm]
      rfl
    rw [place_eq, belowMark, Position.beyond_eq_lowered (Position.counts_behind before)]

end Script.Layout

namespace Session

/-! ## Runs in which nothing is added to lines -/

/-- Run a script where nothing is added to the lines of the names in its body. -/
def runLevel (session : Session) (ambient : Ambient) (imported : Bindings) (script : Script)
    (job : Job) :
    Outcome (Value × Session) := do
  let ctx ← session.bodyContext ambient imported script.header job
  let value ← session.bodyValue ambient job script.body ctx.level
  let finished ← (delivered script.header job value : Except Fault Value)
  return (finished, ⟨session.frames ++ [⟨ctx.payload, ctx.bindings⟩]⟩)

theorem reported_alike {left : Fault} (alike : left.Alike right) (source : String) :
    (reported source left).Alike (reported source right) := by
  cases alike with
  | same => exact .same _
  | notCallable left right => exact .notCallable left right

theorem bodyValue_alike (session : Session) (ambient : Ambient) (job : Job) {body : Expr}
    (isWritten : body.IsWritten) (ctx : Context) : (session.bodyValue ambient job body ctx).Alike
      (session.bodyValue ambient job (body.lowered ctx.lineOffset) ctx.level) := by
  have evals :=
    Engine.lowers_upTo (session.setting ambient ⟨ctx.payload, ctx.bindings⟩)
      Engine.depth ctx body isWritten
  exact evals.tryCatch_throw fun alike => reported_alike alike job.source

/-- A run comes to the same as one where the names of the body are moved down instead. -/
theorem runScript_alike (session : Session) (ambient : Ambient) (imported : Bindings)
    (header : Header) {body : Expr} (isWritten : body.IsWritten) (job : Job) :
    (session.runScript ambient imported ⟨header, body⟩ job).Alike
      (session.runLevel ambient imported ⟨header, body.lowered (bodyLineOffset job.source)⟩
        job) := by
  rw [runScript_eq]
  refine (Outcome.Alike.refl _).bind_of_result fun ctx isContext => ?_
  have sameOffset : ctx.lineOffset = bodyLineOffset job.source := by
    obtain ⟨bindings, _, isPure⟩ := Outcome.result_bind_eq_ok.mp isContext
    exact (congrArg Context.lineOffset (Except.ok.inj isPure)).symm
  rw [← sameOffset]
  exact (session.bodyValue_alike ambient job isWritten ctx).bind fun _ => .refl _

/-! ## Runs of requests -/

section Layout

variable {layout : Script.Layout} {header : Header}
  (isHeader : Header.parse (Text.trim layout.top) = .ok header) {source : String}
  (isSource : source.toList = layout.source)

include isHeader isSource

theorem parse_of_read (isRead : Expr.parse layout.body = .ok body) :
    parse source = .ok ⟨header, body⟩ := by
  rw [parse, isSource, layout.parse_source, isHeader, isRead]
  rfl

theorem parse_of_refused (isRefused : Expr.parse layout.body = .error fault) :
    parse source = .error (.malformed fault (some source)) := by
  rw [parse, isSource, layout.parse_source, isHeader, isRefused]
  rfl

end Layout

/-- The job of a request whose payload has been read. -/
def jobOf (request : Request) (payload : Value) : Job :=
  { request.job with
    payload := payload.normalise
    bindings := request.job.bindings.map fun binding => (binding.1, binding.2.normalise) }

/-- What a header imports; nothing without a library. -/
def importsOf (session : Session) (ambient : Ambient) (library : Option Library) (header : Header) :
    Outcome (Bindings × Session) :=
  match library with
  | some library => Module.importAll library ambient ([], session) header.imports
  | none => pure ([], session)

theorem run_of_payload {request : Request} (isPayload : payloadOf request = .ok payload)
    (session : Session) (ambient : Ambient) (library : Option Library) :
    session.run ambient library request =
      (do
        let script ← (parse request.job.source : Except Fault Script)
        let state ← session.importsOf ambient library script.header
        state.2.runScript ambient state.1 script (jobOf request payload)) := by
  unfold run runUsing
  rw [isPayload]
  cases library <;> rfl

/-- A body that cannot be read is reported with its own place in the body, which is too far up in
the script; read where it stands in the script, it would be refused at its place there.  Only a
fault of the inside of a string says where it is in the string.  A body that can be read is
evaluated as if its names were moved down by the lines up to the mark, except for those in lambdas,
in arguments with placeholders and in cases with a binding.  Its names stand where tokens of the
body do, or nowhere, or come from the inside of a string.  Moving down leads to the right place in
the script if and only if nothing stands between the line of the mark and the body. -/
theorem run_reports_places (layout : Script.Layout) {header : Header}
    (isHeader : Header.parse (Text.trim layout.top) = .ok header) {request : Request}
    (isSource : request.job.source.toList = layout.source) {payload : Value}
    (isPayload : payloadOf request = .ok payload) (session : Session) (ambient : Ambient)
    (library : Option Library) : (∀ fault, Expr.parse layout.body = .error fault →
      session.run ambient library request =
          .fault (.malformed fault (some request.job.source)) ∧
        ((fault.IsOf layout.body ∧
            Expr.parseAt (.behind layout.lead) layout.body =
              .error (fault.moved layout.place)) ∨
          (Expr.RefusesInside layout.body fault ∧
            Expr.parseAt (.behind layout.lead) layout.body = .error fault))) ∧
      (∀ body, Expr.parse layout.body = .ok body →
        (session.run ambient library request).Alike (do
              let state ← session.importsOf ambient library header
              state.2.runLevel ambient state.1 ⟨header, body.lowered layout.markLine⟩
                (jobOf request payload)) ∧
          ∃ tokens,
            Token.scan layout.body = .ok tokens ∧ body.All (Expr.IsMadeOf tokens) ∧
              ∀ token ∈ tokens, (token.moved layout.place).IsOf layout.source) ∧
      (∀ position, position.IsOf layout.body → position.line < (layout.place position).line) ∧
      ((∀ position, position.IsOf layout.body →
          position.lowered layout.markLine = layout.place position) ↔
        layout.gap = []) := by
  refine ⟨fun fault isRefused => ⟨?_, Expr.parseAt_of_refused isRefused _⟩,
    fun body isRead => ⟨?_, ?_⟩, fun _ isOf => layout.line_lt_place isOf,
    layout.lowered_eq_place_iff⟩
  · rw [run_of_payload isPayload, parse_of_refused isHeader isSource isRefused]
    rfl
  · rw [run_of_payload isPayload, parse_of_read isHeader isSource isRead]
    refine (Outcome.Alike.refl (session.importsOf ambient library header)).bind fun state => ?_
    have sameLine := layout.bodyLineOffset_source isSource
    rw [← sameLine]
    exact runScript_alike state.2 ambient state.1 header (Expr.isWritten_of_parse isRead) _
  · obtain ⟨tokens, scanned, _⟩ := except_bind_eq_ok.mp (Expr.parse_eq layout.body ▸ isRead)
    refine ⟨tokens, scanned, Expr.all_isMadeOf scanned isRead, fun token member => ?_⟩
    exact (Token.isOf_of_scan scanned token member).within layout.lead layout.tail

/-- A script whose body has a comma too many in its second line. -/
def strayComma : Script.Layout where
  lines := ["%dw 2.0".toList, "output application/json".toList]
  margin := []
  gap := []
  body := '\x7b' :: ("\n  id: payload.orderId,,\n".toList ++ ['\x7d'])
  tail := ['\n']
  areLines := by decide
  noMarks := by
    simp only [List.forall_mem_cons, List.not_mem_nil, false_imp_iff, implies_true, and_true]
    exact ⟨(Text.cutAt?_eq_none_iff (by decide) _).mp (by decide),
      (Text.cutAt?_eq_none_iff (by decide) _).mp (by decide)⟩
  marginIsLine := nofun
  marginBlank := nofun
  gapBlank := nofun
  tailBlank := List.forall_mem_singleton.mpr (by decide)
  startsPlain := by
    rintro _ ⟨⟩
    decide
  endsPlain := ⟨'\x7d', by simp, by decide⟩

/-- The request to run that script. -/
def strayCommaRequest : Request := ⟨⟨String.ofList strayComma.source, .null, [], true⟩, none, []⟩

/-- The comma stands in the fifth line of the script and is reported for the second. -/
theorem run_reports_stray_comma :
    Expr.parse strayComma.body = .error (.expected .word .comma ⟨2, 23⟩) ∧
      fresh.run ⟨"", 0⟩ none strayCommaRequest =
        .fault (.malformed (.expected .word .comma ⟨2, 23⟩)
          (some (String.ofList strayComma.source))) ∧
      strayComma.place ⟨2, 23⟩ = ⟨5, 23⟩ := by
  have isRefused : Expr.parse strayComma.body = .error (.expected .word .comma ⟨2, 23⟩) := by
    cbv
  have isHeader :
      Header.parse (Text.trim strayComma.top) =
        .ok { Header.plain with version := "2.0", output := some "application/json" } := by
    cbv
  have isSource : strayCommaRequest.job.source.toList = strayComma.source := String.toList_ofList
  have isPayload : payloadOf strayCommaRequest = .ok .null := rfl
  obtain ⟨refused, _⟩ :=
    run_reports_places strayComma isHeader isSource isPayload fresh ⟨"", 0⟩ none
  exact ⟨isRefused, (refused _ isRefused).1, by decide⟩

end Session

end Weave
