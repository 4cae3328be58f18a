import StillVideo.Proofs.RunFailures
import StillVideo.Proofs.RunSamples

/-!
# How the encoder of a run exits

While a run goes on, its token holds the action that stops the encoder, so the encoder was asked to
stop exactly if the run is cancelled or reading its output has failed (`Control.Armed`). An encoder
that was not asked exits with its own code, any other one with the code of an encoder that stops or,
if it is stubborn, is killed (`Run.exitCode_finish_eq`).
-/

namespace StillVideo

/-! ## Encoders that were asked to stop -/

namespace EncoderProcess

/-- The encoder is as it was started, or as it is when it was asked to stop: a stubborn one still
runs, any other one has stopped. -/
structure Stands (stubborn asked : Bool) (p : EncoderProcess) : Prop where
  stubborn_eq : p.stubborn = stubborn
  terminations : p.terminations = 0 ↔ asked = false
  exitCode : p.exitCode = if asked && !stubborn then some stoppedCode else none

variable {p : EncoderProcess} {stubborn asked : Bool}

theorem stands_start (stubborn : Bool) : (start stubborn).Stands stubborn false :=
  ⟨rfl, ⟨fun _ => rfl, fun _ => rfl⟩, rfl⟩

theorem Stands.terminate (h : p.Stands stubborn asked) : p.terminate.Stands stubborn true := by
  unfold EncoderProcess.terminate
  cases hcode : p.exitCode with
  | some code =>
    -- only an encoder that was asked before has exited
    have hasked : asked = true := by
      cases asked with
      | true => rfl
      | false => exact absurd (hcode.symm.trans h.exitCode) (Option.some_ne_none code)
    rw [hasked] at h
    exact h
  | none =>
    refine ⟨h.stubborn_eq,
      ⟨fun h => absurd h (Nat.succ_ne_zero _), fun h => absurd h (by simp)⟩, ?_⟩
    dsimp only
    rw [h.stubborn_eq]
    cases stubborn <;> rfl

/-- The exit code of an encoder: its own unless it was asked to stop. -/
def codeAfter (stubborn asked : Bool) (code : Int) : Int :=
  if asked then if stubborn then killedCode else stoppedCode else code

theorem Stands.exitCode_wait (h : p.Stands stubborn asked) (code : Int) :
    (p.wait code).exitCode = some (codeAfter stubborn asked code) := by
  have hcode := h.exitCode
  unfold wait codeAfter
  cases asked with
  | false =>
    rw [hcode]
    exact congrArg EncoderProcess.exitCode (if_pos (h.terminations.mpr rfl))
  | true =>
    cases stubborn with
    | false =>
      rw [hcode]
      exact hcode
    | true =>
      rw [hcode]
      exact congrArg EncoderProcess.exitCode
        (if_neg fun h0 => absurd (h.terminations.mp h0) (by simp))

theorem codeAfter_asked_ne_zero (stubborn : Bool) (code : Int) :
    codeAfter stubborn true code ≠ 0 := by
  cases stubborn with
  | true => exact show killedCode ≠ 0 by decide
  | false => exact show stoppedCode ≠ 0 by decide

end EncoderProcess

/-! ## Armed runs -/

namespace Control

/-- The run is cancelled, or reading its output has failed: either way the encoder was asked to
stop. -/
def stops (c : Control) : Bool := c.token.cancelled || c.readFailure.isSome

theorem stops_eq_true_iff {c : Control} :
    c.stops = true ↔ c.token.cancelled = true ∨ c.readFailure ≠ none := by
  unfold stops
  rw [Bool.or_eq_true, Option.isSome_iff_ne_none]

theorem stops_eq_false_iff {c : Control} :
    c.stops = false ↔ c.token.cancelled = false ∧ c.readFailure = none := by
  unfold stops
  rw [Bool.or_eq_false_iff, Option.isSome_eq_false_iff, Option.isNone_iff_eq_none]

/-- The token can stop the encoder, which was asked to stop exactly if the run is cancelled or
reading its output has failed. -/
structure Armed (stubborn : Bool) (c : Control) : Prop where
  callbacks : c.token.callbacks ≠ []
  process : c.process.Stands stubborn c.stops

variable {c : Control} {stubborn : Bool}

/-- Asking the encoder to stop, for one of the two reasons. -/
theorem Armed.terminate (h : c.Armed stubborn) {c' : Control} (htoken : c'.token = c.token)
    (hprocess : c'.process = c.process.terminate) (hstops : c'.stops = true) :
    c'.Armed stubborn := by
  refine ⟨htoken ▸ h.callbacks, ?_⟩
  rw [hprocess, hstops]
  exact h.process.terminate

/-- Nothing happens to the encoder. -/
theorem Armed.congr (h : c.Armed stubborn) {c' : Control} (htoken : c'.token = c.token)
    (hprocess : c'.process = c.process) (hfailure : c'.readFailure = c.readFailure) :
    c'.Armed stubborn := by
  refine ⟨htoken ▸ h.callbacks, ?_⟩
  have hstops : c'.stops = c.stops := by unfold stops; rw [htoken, hfailure]
  rw [hprocess, hstops]
  exact h.process

theorem Armed.cancel (h : c.Armed stubborn) : c.cancel.Armed stubborn := by
  have hfold : ∀ (actions : List StopAction) (p : EncoderProcess), p.Stands stubborn true →
      (actions.foldl (fun p _ => p.terminate) p).Stands stubborn true := by
    intro actions
    induction actions with
    | nil => exact fun p hp => hp
    | cons action actions ih => exact fun p hp => ih p.terminate hp.terminate
  rw [cancel_eq]
  refine ⟨h.callbacks, ?_⟩
  obtain ⟨action, actions, heq⟩ := List.exists_cons_of_ne_nil h.callbacks
  show (c.token.callbacks.foldl (fun p _ => p.terminate) c.process).Stands stubborn true
  rw [heq]
  exact hfold actions _ h.process.terminate

theorem Armed.note (h : c.Armed stubborn) (pipe : Pipe) (text : String) :
    (c.note pipe text).1.Armed stubborn := by
  cases hr : c.refused text with
  | none =>
    rw [note_of_shown hr]
    exact h
  | some f =>
    rw [note_of_refused hr]
    cases pipe with
    | output => exact h.terminate rfl rfl (Bool.or_true _)
    | errors => exact h.congr rfl rfl rfl

theorem Armed.deliver (h : c.Armed stubborn) (pipe : Pipe) (d : Delivery) :
    (c.deliver pipe d).1.Armed stubborn := by
  cases d with
  | failure reason =>
    cases pipe with
    | output => exact h.terminate rfl rfl (Bool.or_true _)
    | errors => exact h.congr rfl rfl rfl
  | line text =>
    cases pipe with
    | errors =>
      show (c.readErrors text).1.Armed stubborn
      rw [readErrors_eq]
      cases EncoderLine.noted? .errors text with
      | none => exact h
      | some noted => exact h.note .errors noted
    | output =>
      show (c.readOutput text).1.Armed stubborn
      cases hc : c.token.cancelled with
      | true =>
        unfold readOutput
        rw [if_pos hc]
        refine h.terminate rfl rfl ?_
        show (c.token.cancelled || _) = true
        rw [hc, Bool.true_or]
      | false =>
        rcases readOutput_eq hc text with ⟨key, value, -, -, heq⟩ | ⟨-, heq⟩ <;> rw [heq]
        · unfold feed
          split <;> exact h.congr rfl rfl rfl
        · cases EncoderLine.noted? .output text with
          | none => exact h
          | some noted => exact h.note .output noted

theorem Armed.step (h : c.Armed stubborn) (e : EncoderStep) : (c.step e).1.Armed stubborn := by
  unfold Control.step
  split
  · unfold advance
    split
    · exact h.cancel.deliver _ _
    · exact h.deliver _ _
  · exact h

theorem armed_start {token : CancelToken StopAction} (h : token.cancelled = false)
    (total : Binary64) (stubborn : Bool) (refused : String → Option HostFault) :
    (start token total stubborn refused).Armed stubborn := by
  unfold start CancelToken.register
  rw [if_neg (by rw [h]; exact Bool.false_ne_true)]
  refine ⟨List.append_ne_nil_of_right_ne_nil _ (List.cons_ne_nil _ _), ?_⟩
  show (EncoderProcess.start stubborn).Stands stubborn (token.cancelled || false)
  rw [h]
  exact EncoderProcess.stands_start stubborn

end Control

namespace Run

variable {r : Run} {stubborn : Bool}

theorem armed_step (h : r.control.Armed stubborn) (e : EncoderStep) :
    (r.step e).control.Armed stubborn := by
  rcases r.control_step e with hstep | hstep
  · rw [hstep]
    exact h.step e
  · rw [hstep]
    exact (h.step e).cancel

theorem armed_foldl_step (h : r.control.Armed stubborn) (steps : List EncoderStep) :
    (steps.foldl step r).control.Armed stubborn := by
  induction steps generalizing r with
  | nil => exact h
  | cons e rest ih => exact ih (armed_step h e)

/-- A run that is cancelled stays cancelled. -/
theorem cancelled_foldl_step (h : r.control.token.cancelled = true) (steps : List EncoderStep) :
    (steps.foldl step r).control.token.cancelled = true := by
  induction steps generalizing r with
  | nil => exact h
  | cons e rest ih => exact ih (cancelled_of_cancelled_step (Control.cancelled_step h e))

theorem cancelled_finish (h : r.control.token.cancelled = true) (code : Int) (cancelAtExit : Bool) :
    (r.finish code cancelAtExit).control.token.cancelled = true := by
  unfold finish
  split
  · exact Control.cancelled_cancel _
  · exact h

/-- **Exit codes.** An encoder exits with its own code, unless it was asked to stop while it was
running. -/
theorem exitCode_finish_eq (h : r.control.Armed stubborn) (code : Int) (cancelAtExit : Bool) :
    (r.finish code cancelAtExit).control.process.exitCode =
      some (EncoderProcess.codeAfter stubborn r.control.stops code) := by
  have hwait := h.process.exitCode_wait code
  unfold finish
  split
  · have hexited : (r.control.wait code).process.exitCode ≠ none :=
      EncoderProcess.exitCode_wait _ code
    show (r.control.wait code).cancel.process.exitCode = _
    rw [Control.process_cancel_of_exited hexited]
    exact hwait
  · exact hwait

end Run

end StillVideo
