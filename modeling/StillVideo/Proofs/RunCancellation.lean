import StillVideo.Proofs.RunLifecycle

/-!
# Cancelled runs

An encoder whose run is cancelled was asked to stop and does not exit with zero (`Control.Armed`).
Whatever the script does then, the run has failed, and it counts as cancelled unless reading the
output failed (`Supervisor.run_cancelled`). A failure of the error pipe is explained by the
cancellation, a failure of the output pipe is not (`Supervisor.run_cancelled_unreadable`).
-/

namespace StillVideo

/-! ## Failures of cancelled runs -/

namespace Control

variable {c : Control}

/-- A cancelled run whose encoder does not exit with zero fails as cancelled, unless reading the
output failed. -/
theorem failure?_of_cancelled (hc : c.token.cancelled = true)
    (hexit : c.process.exitCode ≠ some 0) :
    c.failure? = some (match c.readFailure with
      | some reason => .unreadable reason
      | none => .cancelled) := by
  unfold failure?
  cases c.readFailure with
  | some reason => rfl
  | none =>
    dsimp only
    rw [if_neg fun h => hexit h.1, if_pos hc]

end Control

namespace Run

/-- A run that is over, with another exit code. -/
def exitingWith (r : Run) (exit : Int) : Run := { r with control.process.exitCode := some exit }

end Run

/-! ## Outcomes -/

/-- A run has failed for a cause, and what it raises says so. -/
structure RunOutcome.FailsBy (outcome : RunOutcome) (cause : FailureCause) : Prop where
  state : outcome.supervisor.state = .failed
  raised : ∃ failure, outcome.result = .error (.encode failure) ∧
    failure.headline = cause.headline ∧ failure.cancelled = .bool (cause = .cancelled)

theorem RunOutcome.FailsBy.cancelled_iff {outcome : RunOutcome} {cause cause' : FailureCause}
    (h : outcome.FailsBy cause) (h' : outcome.FailsBy cause') :
    cause = .cancelled ↔ cause' = .cancelled := by
  obtain ⟨-, failure, hresult, -, hflag⟩ := h
  obtain ⟨-, failure', hresult', -, hflag'⟩ := h'
  obtain rfl := Fault.encode.inj (Except.error.inj (hresult.symm.trans hresult'))
  simpa [Document.bool] using hflag.symm.trans hflag'

namespace Supervisor

theorem failsBy_conclude {s : Supervisor} {r : Run} {cause : FailureCause}
    (h : r.control.failure? = some cause) : (s.conclude r).FailsBy cause := by
  unfold conclude
  rw [h]
  exact ⟨rfl, _, rfl, rfl, rfl⟩

/-- What a cancelled run fails by when its encoder has not exited with zero. -/
theorem failsBy_of_cancelled {s : Supervisor} {r : Run} (hc : r.control.token.cancelled = true)
    (hexit : r.control.process.exitCode ≠ some 0) :
    (r.control.readFailure = none → (s.conclude r).FailsBy .cancelled) ∧
      (r.control.readFailure ≠ none → ∃ reason, (s.conclude r).FailsBy (.unreadable reason)) := by
  have hfailure := Control.failure?_of_cancelled hc hexit
  cases hr : r.control.readFailure with
  | none =>
    rw [hr] at hfailure
    exact ⟨fun _ => failsBy_conclude hfailure, fun h => absurd rfl h⟩
  | some reason =>
    rw [hr] at hfailure
    exact ⟨fun h => absurd h (Option.some_ne_none reason),
      fun _ => ⟨reason, failsBy_conclude hfailure⟩⟩

section

variable {session : Session} {o : Observers} {m : Machine} {before : List EncoderStep}
  {stubborn : Bool}

/-- **Cancelled runs.** A run that the script or the consumer cancels in one of its first steps has
failed whatever comes then, with an exit code that is not zero. It fails as cancelled if reading the
output does not fail, also if the encoder that was asked to stop exits with any other code that is
not zero; else it fails as unreadable. -/
theorem run_cancelled (hm : Begins session m)
    (hc : (taken session o m before stubborn).control.token.cancelled = true)
    (after : List EncoderStep) (code : Int) (cancelAtExit : Bool) :
    let outcome := (runScript session o m (before ++ after) code stubborn cancelAtExit).1
    let whole := (taken session o m (before ++ after) stubborn).finish code cancelAtExit
    let unread := (begun session o m stubborn).OutputFails (before ++ after)
    (¬ unread → outcome.FailsBy .cancelled ∧ ∀ exit ≠ 0,
      ({ ofSession session with state := .running }.conclude (whole.exitingWith exit)).FailsBy
        .cancelled) ∧
    (unread → ¬ outcome.FailsBy .cancelled ∧ ∃ reason, outcome.FailsBy (.unreadable reason)) ∧
    ∃ exit, outcome.supervisor.exitCode = some exit ∧ exit ≠ 0 := by
  intro outcome whole unread
  have htaken : taken session o m (before ++ after) stubborn =
      after.foldl Run.step (taken session o m before stubborn) := List.foldl_append
  have hcancelled :
      (taken session o m (before ++ after) stubborn).control.token.cancelled = true := by
    rw [htaken]
    exact Run.cancelled_foldl_step hc after
  have hend := Run.cancelled_finish hcancelled code cancelAtExit
  have hread : whole.control.readFailure = none ↔ ¬ unread := by
    rw [(Run.agree_finish _ code cancelAtExit).readFailure]
    exact readFailure_taken_eq_none_iff session o m _ stubborn
  have hexit : ∃ exit, whole.control.process.exitCode = some exit ∧ exit ≠ 0 := by
    have hcode := exitCode_finish_taken session o m (before ++ after) stubborn hm.uncancelled code
      cancelAtExit
    rw [Control.stops_eq_true_iff.mpr (.inl hcancelled)] at hcode
    exact ⟨_, hcode, EncoderProcess.codeAfter_asked_ne_zero stubborn code⟩
  obtain ⟨exit, hcode, hne⟩ := hexit
  have houtcome : outcome = { ofSession session with state := .running }.conclude whole :=
    runScript_of_begins session o hm (before ++ after) code stubborn cancelAtExit
  obtain ⟨hcancel, hunread⟩ := failsBy_of_cancelled
    (s := { ofSession session with state := .running }) hend
    (by rw [hcode]; exact fun h => hne (Option.some.inj h))
  rw [houtcome]
  refine ⟨fun h => ⟨hcancel (hread.mpr h), fun other hother => ?_⟩, fun h => ?_, exit, ?_, hne⟩
  · refine (failsBy_of_cancelled (r := whole.exitingWith other) hend ?_).1 (hread.mpr h)
    exact fun h => hother (Option.some.inj h)
  · obtain ⟨reason, hfails⟩ := hunread fun hnone => hread.mp hnone h
    refine ⟨fun hcancelled => ?_, reason, hfails⟩
    exact absurd ((hfails.cancelled_iff hcancelled).mpr rfl) (by simp)
  · rw [exitCode_conclude]
    exact hcode

end

/-- A line of the error pipe during which the run is cancelled. -/
def cancelledAtLine : EncoderStep := ⟨.errors, .line "stopping", 0, true⟩

/-- Reading a pipe fails. -/
def failingAt (pipe : Pipe) : EncoderStep := ⟨pipe, .failure "pipe gone", 0, false⟩

/-- A failure of the error pipe behind the cancellation is explained by it. -/
theorem run_cancelled_errorPipe :
    Begins oneSecond .bare ∧
    (taken oneSecond .standard .bare [cancelledAtLine] true).control.token.cancelled = true ∧
    (runScript oneSecond .standard .bare ([cancelledAtLine] ++ [failingAt .errors]) 0 true
      false).1.FailsBy .cancelled := by
  refine ⟨⟨rfl, rfl, rfl⟩, rfl, ?_⟩
  refine ((run_cancelled ⟨rfl, rfl, rfl⟩ rfl [failingAt .errors] 0 false).1 ?_).1
  exact (Run.readFailure_foldl_step_eq_none_iff (r := begun oneSecond .standard .bare true) rfl
    ([cancelledAtLine] ++ [failingAt .errors])).mp rfl

/-- A run that is cancelled while its encoder is running does not end as cancelled if reading the
output fails then. -/
theorem run_cancelled_unreadable :
    (begun oneSecond .standard .bare false).control.process.exitCode = none ∧
    (taken oneSecond .standard .bare [cancelledAtLine] false).control.token.cancelled = true ∧
    (runScript oneSecond .standard .bare [cancelledAtLine, failingAt .output] 0 false
      false).1.FailsBy (.unreadable "pipe gone") ∧
    ¬ (runScript oneSecond .standard .bare [cancelledAtLine, failingAt .output] 0 false
      false).1.FailsBy .cancelled := by
  have hunreadable : (runScript oneSecond .standard .bare [cancelledAtLine, failingAt .output] 0
      false false).1.FailsBy (.unreadable "pipe gone") := ⟨rfl, _, rfl, rfl, rfl⟩
  refine ⟨rfl, rfl, hunreadable, fun hcancelled => ?_⟩
  exact absurd ((hunreadable.cancelled_iff hcancelled).mpr rfl) (by decide)

end Supervisor

end StillVideo
