import Weave.Proofs.Eval.Reading
import Weave.Proofs.Session.Made

namespace Weave

/-!
# Texts are read once

The interpolations of a text are found when a script is read.  A run evaluates what was read from
scripts only, so it never comes upon a text in which an interpolation is left to be found, and
neither do later runs that call the functions it has left.
-/

/-- Evaluating a plain expression leaves nothing to the reading. -/
theorem Evaluator.eval_shares_evalReading (reading : Reading) :
    Evaluator.Shares .plain Expr.eval (Expr.evalReading reading) :=
  fun inFrames inContext isPlain =>
    Making.eval_shares (Engine.upTo_follows_upToReading reading inFrames Engine.depth) inContext
      isPlain

/--
No text of a script that was read holds an interpolation, a text without one stands for itself, and
no run comes upon a text with one, whatever ran before it: what such a text would be read as does
not matter to any run.
-/
theorem Session.run_reads_texts_once : (∀ (source : List Char) (script : Script),
      Script.parse source = .ok script → script.IsPlain) ∧
    (∀ (engine : Engine) (ctx : Context) (text : String),
      ¬ interpolationMark <:+: text.toList →
        Eval.template engine ctx text = pure (.text text)) ∧
    runUsing Expr.eval = run ∧
    ∀ (reading : Reading) (session : Session) (results : List Value) (ambient : Ambient)
      (library : Option Library) (request : Request),
      session.Reached results → request.job.HandsBack results →
        session.runUsing (Expr.evalReading reading) ambient library request =
          session.run ambient library request := by
  refine ⟨fun source script isRead => Script.parse_leaves source script isRead, ?_, rfl,
    ?_⟩
  · intro engine ctx text notMarked
    exact Eval.step_text_of_plain (cutAt?_interpolationMark.mpr notMarked) engine ctx
  · intro reading session results ambient library request reached handsBack
    obtain ⟨_, inFrames, inResults⟩ := reached.hold .plain
    have shares :=
      runUsing_shares (Evaluator.eval_shares_evalReading reading) inFrames ambient library
        (Job.all_of_handsBack inResults handsBack)
    exact shares.same.symm

/-- An interpolation that an escape has spelt is read with the script, and a payload that looks like
one is not read at all, even where reading a text would fail. -/
theorem Session.run_reads_texts_once_escaped : (Script.parse "\"x\\u0024(payload)\"".toList =
        .ok ⟨Header.plain, .template [.text "x", .name "payload" ⟨1, 1⟩]⟩ ∧
      Script.IsPlain ⟨Header.plain, .template [.text "x", .name "payload" ⟨1, 1⟩]⟩) ∧
    (¬ interpolationMark <:+: "x".toList ∧
      Eval.template Engine.exhausted ⟨.null, [], 0⟩ "x" = pure (.text "x")) ∧
    Session.fresh.Reached [] ∧
    Job.HandsBack [] ⟨"\"x\\u0024(payload)\"", .text "$(y)", [], false⟩ ∧
    (Session.fresh.runUsing (Expr.evalReading fun _ _ _ => throw .exhausted) ⟨"", 0⟩ none
        ⟨⟨"\"x\\u0024(payload)\"", .text "$(y)", [], false⟩, none, []⟩).result =
      .ok (.text "x$(y)", ⟨[⟨.text "$(y)", []⟩]⟩) := by
  have parsed :
      Script.parse "\"x\\u0024(payload)\"".toList =
        .ok ⟨Header.plain, .template [.text "x", .name "payload" ⟨1, 1⟩]⟩ := by
    cbv
  have read :
      Session.parse "\"x\\u0024(payload)\"" =
        .ok ⟨Header.plain, .template [.text "x", .name "payload" ⟨1, 1⟩]⟩ := by
    rw [Session.parse, parsed]
  have notMarked : ¬ interpolationMark <:+: "x".toList := by decide
  have handsBack :
      Job.HandsBack [] ⟨"\"x\\u0024(payload)\"", .text "$(y)", [], false⟩ := by
    simp [Job.HandsBack, Value.functions]
  obtain ⟨arePlain, standForThemselves, _, unread⟩ := Session.run_reads_texts_once
  refine ⟨⟨parsed, arePlain _ _ parsed⟩, ⟨notMarked, standForThemselves _ _ _ notMarked⟩, .fresh,
    handsBack, ?_⟩
  rw [unread _ _ [] _ _ _ .fresh handsBack, Session.run, Session.runUsing]
  simp only [Session.payloadOf, read]
  rfl

end Weave
