import StillVideo.Proofs.GraphText
import StillVideo.Proofs.JobSteps
import StillVideo.Proofs.RunExits
import StillVideo.Proofs.SupervisedRuns

/-!
# The lifecycle of a supervisor

A run either returns the path of the video and has succeeded, or raises an encode failure and has
failed, or the system has refused to print its announcement or to take its arguments, which leaves
the supervisor as it was. Unless it is cancelled before it begins or cannot be announced, it
announces one command, tries one process and announces the end of the command with the exit code,
which is that of the script unless the encoder was asked to stop (`Supervisor.run_lifecycle`). A
supervisor that has got to a state of its own is not run again.
-/

namespace StillVideo

/-- The event tells of a command or of a process. -/
def Event.isCommand : Event → Bool
  | .commandStarted _ | .commandEnded .. | .started _ | .probed _ => true
  | _ => false

/-- The event tells of a line or of a cancellation. -/
def Event.isNotice : Event → Bool
  | .printed _ | .heard .. | .cancelled => true
  | _ => false

theorem Event.isCommand_of_isNotice {ev : Event} (h : ev.isNotice = true) :
    ev.isCommand = false := by
  cases ev <;> simp_all [isNotice, isCommand]

/-! ## Events of a run -/

namespace Run

/-- Nothing that a run has noted down tells of a command. -/
def IsSilent (r : Run) : Prop := ∀ ev ∈ r.events, ev.isCommand = false

variable {r : Run}

/-- Something about the events and the token of a run that stays true when the run is cancelled and
when a line is recorded. It stays true in every step, since nothing else adds to the events or
changes the token. -/
structure Kept (P : Run → Prop) : Prop where
  congr : ∀ {r r' : Run}, P r → r'.events = r.events → r'.control.token = r.control.token → P r'
  cancel : ∀ {r : Run}, P r → P r.cancel
  record : ∀ {r : Run}, P r → ∀ (pipe : Pipe) (line : String), P (r.record pipe line)

namespace Kept

variable {P : Run → Prop} (hP : Kept P)
include hP

theorem consume (h : P r) (s : Sample) : P (r.consume s) := by
  unfold Run.consume
  dsimp only
  generalize ({ r with observers.received := r.observers.received ++ [s] } : Run).reaction =
    reaction
  obtain ⟨cancels, failure⟩ := reaction
  have hcancel : P (if cancels = true
      then Run.cancel { r with observers.received := r.observers.received ++ [s] }
      else { r with observers.received := r.observers.received ++ [s] }) := by
    split
    · exact hP.cancel (hP.congr h rfl rfl)
    · exact hP.congr h rfl rfl
  cases failure with
  | none => exact hP.congr hcancel rfl rfl
  | some reason =>
    refine hP.record ?_ _ _
    exact hP.congr hcancel rfl rfl

theorem report (h : P r) (report : Report) : P (r.report report) := by
  cases report with
  | nothing => exact h
  | sample s =>
    have hpublished : P { r with channel := r.channel.act (.publish s) } := hP.congr h rfl rfl
    show P (r.publish s)
    unfold publish
    dsimp only
    split
    · exact hP.consume hpublished _
    · exact hpublished
  | line pipe text => exact hP.record h pipe text

theorem step (h : P r) (e : EncoderStep) : P (r.step e) := by
  cases hread : r.control.isRead e.pipe with
  | false =>
    rw [step_of_unread hread]
    exact h
  | true =>
    have hadvance : P (r.advance e) := by
      unfold advance
      split
      · exact hP.cancel (hP.congr h rfl rfl)
      · exact hP.congr h rfl rfl
    have htoken : (r.control.step e).1.token = (r.advance e).control.token := by
      unfold Control.step
      rw [if_pos hread, (Control.kept_deliver _ _ _).1, control_advance]
    rw [step_of_read hread]
    refine hP.report ?_ _
    exact hP.congr hadvance rfl htoken

theorem foldl_step (h : P r) (steps : List EncoderStep) : P (steps.foldl Run.step r) := by
  induction steps generalizing r with
  | nil => exact h
  | cons e rest ih => exact ih (hP.step h e)

theorem finish (h : P r) (code : Int) (cancelAtExit : Bool) : P (r.finish code cancelAtExit) := by
  unfold Run.finish
  split
  · exact hP.cancel (hP.congr h rfl rfl)
  · exact hP.congr h rfl rfl

end Kept

/-- A run has noted down nothing but notices. -/
def OnlyNotices (r : Run) : Prop := ∀ ev ∈ r.events, ev.isNotice = true

theorem OnlyNotices.isSilent (h : r.OnlyNotices) : r.IsSilent :=
  fun ev hev => Event.isCommand_of_isNotice (h ev hev)

theorem kept_onlyNotices : Kept OnlyNotices where
  congr := fun h heq _ => by
    unfold OnlyNotices
    rwa [heq]
  cancel := fun h => List.forall_mem_cons.mpr ⟨rfl, h⟩
  record := fun {r} h pipe line => by
    have hrecorded : ∀ ev ∈ (r.observers.record r.quiet (.text pipe.name) (.text line)).2,
        ev.isNotice = true := by
      unfold Observers.record
      intro ev hev
      rcases List.mem_append.mp hev with hev | hev <;> split at hev
      · rw [List.mem_singleton.mp hev]
        rfl
      · exact absurd hev List.not_mem_nil
      · rw [List.mem_singleton.mp hev]
        rfl
      · exact absurd hev List.not_mem_nil
    unfold OnlyNotices Run.record
    split
    · exact h
    · exact List.forall_mem_append.mpr ⟨fun ev hev => hrecorded ev (List.mem_reverse.mp hev), h⟩

end Run

namespace Supervisor

/-! ## Outcomes -/

/-- A run has returned the path and its supervisor has succeeded, or it has raised an encode failure
and its supervisor has failed, or the system has refused something and its supervisor has not
started. -/
inductive IsSettled (output : String) (outcome : RunOutcome) : Prop
  | returned (result : outcome.result = .ok output) (state : outcome.supervisor.state = .succeeded)
  | raised (failure : EncodeFailure) (result : outcome.result = .error (.encode failure))
      (state : outcome.supervisor.state = .failed)
  | refused (f : HostFault) (result : outcome.result = .error (.host f))
      (state : outcome.supervisor.state = .notStarted)

theorem isSettled_fail (s : Supervisor) (o : Observers) (cause : FailureCause) (output : String) :
    IsSettled output (s.fail o cause) := .raised _ rfl rfl

theorem exitCode_conclude (s : Supervisor) (r : Run) :
    (s.conclude r).supervisor.exitCode = r.control.process.exitCode := by
  unfold conclude fail
  dsimp only
  split <;> rfl

theorem isSettled_conclude (s : Supervisor) (r : Run) :
    IsSettled s.session.output (s.conclude r) := by
  unfold conclude
  dsimp only
  split
  · exact isSettled_fail _ _ _ _
  · exact .returned rfl rfl

theorem conclude_eq_ok_iff {s : Supervisor} {r : Run} :
    (s.conclude r).result = .ok s.session.output ↔ r.control.failure? = none := by
  unfold conclude
  dsimp only
  split
  · rename_i cause h
    rw [h]
    constructor
    · intro hr
      exact absurd (show Except.error _ = Except.ok s.session.output from hr) (by simp)
    · exact fun hr => absurd hr (Option.some_ne_none cause)
  · rename_i h
    exact ⟨fun _ => h, fun _ => rfl⟩

/-- The conclusion of a run is no fault of the host. -/
theorem result_conclude_ne_host (s : Supervisor) (r : Run) (f : HostFault) :
    (s.conclude r).result ≠ .error (.host f) := by
  intro hr
  unfold conclude at hr
  dsimp only at hr
  split at hr
  · exact absurd (Except.error.inj hr) (by simp [failure])
  · exact absurd (show Except.ok s.session.output = _ from hr) (by simp)

namespace IsSettled

variable {output : String} {outcome : RunOutcome} (h : IsSettled output outcome)
include h

theorem raises (hne : outcome.result ≠ .ok output) :
    (∃ failure, outcome.result = .error (.encode failure)) ∨
      ∃ f, outcome.result = .error (.host f) := by
  cases h with
  | returned result state => exact absurd result hne
  | raised failure result state => exact .inl ⟨failure, result⟩
  | refused f result state => exact .inr ⟨f, result⟩

theorem succeeded_iff : outcome.supervisor.state = .succeeded ↔ outcome.result = .ok output := by
  cases h with
  | returned result state => exact ⟨fun _ => result, fun _ => state⟩
  | raised failure result state => simp [result, state]
  | refused f result state => simp [result, state]

theorem failed_iff :
    outcome.supervisor.state = .failed ↔ ∃ failure, outcome.result = .error (.encode failure) := by
  cases h with
  | returned result state => simp [result, state]
  | raised failure result state => exact ⟨fun _ => ⟨failure, result⟩, fun _ => state⟩
  | refused f result state => simp [result, state]

theorem notStarted_iff :
    outcome.supervisor.state = .notStarted ↔ ∃ f, outcome.result = .error (.host f) := by
  cases h with
  | returned result state => simp [result, state]
  | raised failure result state => simp [result, state]
  | refused f result state => exact ⟨fun _ => ⟨f, result⟩, fun _ => state⟩

theorem settled : outcome.supervisor.state ≠ .running := by
  cases h with
  | returned result state => rw [state]; decide
  | raised failure result state => rw [state]; decide
  | refused f result state => rw [state]; decide

end IsSettled

/-- A supervisor that has been run refuses to run again and changes nothing. -/
theorem run_of_used {s : Supervisor} (h : s.state ≠ .notStarted) (o : Observers) (m : Machine) :
    s.run o m = (⟨.error (.refused .sessionUsed), s, o⟩, m) := by
  unfold run
  exact if_pos h

/-! ## What the script decides -/

section

variable (session : Session) (o : Observers) (m : Machine) (steps : List EncoderStep)
  (stubborn : Bool)

/-- Nothing has failed before the first step, so reading the output fails only in a step. -/
theorem readFailure_taken_eq_none_iff :
    (taken session o m steps stubborn).control.readFailure = none ↔
      ¬ (begun session o m stubborn).OutputFails steps :=
  Run.readFailure_foldl_step_eq_none_iff (Control.start_eq _ _ _ _).2.1 steps

theorem streamError_taken_eq_none_iff :
    (taken session o m steps stubborn).control.streamError = none ↔
      ∀ e ∈ steps, ¬ e.FailsOnErrors (o.unshown? m) := by
  rw [← Control.refused_start m.token session.totalDuration stubborn (o.unshown? m)]
  exact Run.streamError_foldl_step_eq_none_iff (Control.start_eq _ _ _ _).2.2.1 steps

theorem exitCode_finish_taken (h : m.token.cancelled = false) (code : Int) (cancelAtExit : Bool) :
    ((taken session o m steps stubborn).finish code cancelAtExit).control.process.exitCode =
      some (EncoderProcess.codeAfter stubborn (taken session o m steps stubborn).control.stops
        code) :=
  Run.exitCode_finish_eq (Run.armed_foldl_step
    (Control.armed_start h session.totalDuration stubborn (o.unshown? m)) steps) code cancelAtExit

theorem isSilent_finish_taken (code : Int) (cancelAtExit : Bool) :
    ((taken session o m steps stubborn).finish code cancelAtExit).IsSilent :=
  (Run.kept_onlyNotices.finish (Run.kept_onlyNotices.foldl_step
    (show (begun session o m stubborn).OnlyNotices from List.forall_mem_nil _) steps)
    code cancelAtExit).isSilent

variable {session o m steps stubborn}

/-- The encoder of a run that is neither cancelled nor fails to be read exits with its own code, any
other one with the code of an encoder that was asked to stop. -/
theorem exitCode_of_script (h : m.token.cancelled = false) (code : Int) (cancelAtExit : Bool) :
    let exit :=
      ((taken session o m steps stubborn).finish code cancelAtExit).control.process.exitCode
    ((taken session o m steps stubborn).control.token.cancelled = false ∧
      ¬ (begun session o m stubborn).OutputFails steps → exit = some code) ∧
    ((taken session o m steps stubborn).control.token.cancelled = true ∨
      (begun session o m stubborn).OutputFails steps →
        exit = some (if stubborn then -9 else -15)) := by
  intro exit
  have hread := readFailure_taken_eq_none_iff session o m steps stubborn
  have hexit : exit = _ := exitCode_finish_taken session o m steps stubborn h code cancelAtExit
  rw [hexit, ← hread]
  constructor
  · intro hgoes
    rw [Control.stops_eq_false_iff.mpr hgoes]
    rfl
  · intro hstops
    rw [Control.stops_eq_true_iff.mpr (hstops.imp_right fun hf hnone => hread.mp hnone hf)]
    rfl

end

/-! ## Whole runs -/

/-- How a run goes from its beginning to its end: when it returns and what it raises otherwise, the
exit code of its encoder, the state that it leaves behind, the process and the command that it tells
of, and that it is not repeated. -/
structure Lifecycle (session : Session) (o : Observers) (m : Machine) (outcome : RunOutcome)
    (m' : Machine) : Prop where
  returns : outcome.result = .ok session.output ↔ m.token.cancelled = false ∧
    (ofSession session).unannounced? m = none ∧
    (∃ steps code stubborn cancelAtExit,
      m.encoderFor session.args = .script steps code stubborn cancelAtExit ∧
      ¬ (begun session o m stubborn).OutputFails steps ∧
      ∀ e ∈ steps, ¬ e.FailsOnErrors (o.unshown? m)) ∧
    outcome.supervisor.exitCode = some 0
  exits : ∀ {steps code stubborn cancelAtExit}, m.token.cancelled = false →
    (ofSession session).unannounced? m = none →
    m.encoderFor session.args = .script steps code stubborn cancelAtExit →
    ((taken session o m steps stubborn).control.token.cancelled = false ∧
        ¬ (begun session o m stubborn).OutputFails steps →
      outcome.supervisor.exitCode = some code) ∧
    ((taken session o m steps stubborn).control.token.cancelled = true ∨
        (begun session o m stubborn).OutputFails steps →
      outcome.supervisor.exitCode = some (if stubborn then -9 else -15))
  raises : outcome.result ≠ .ok session.output →
    (∃ failure, outcome.result = .error (.encode failure)) ∨
      ∃ f, outcome.result = .error (.host f)
  refused : ∀ f, outcome.result = .error (.host f) ↔ m.token.cancelled = false ∧
    ((ofSession session).unannounced? m = some f ∨
      (ofSession session).unannounced? m = none ∧
        ∃ reason, f = .value reason ∧ m.encoderFor session.args = .unusable reason)
  succeeded : outcome.supervisor.state = .succeeded ↔ outcome.result = .ok session.output
  failed : outcome.supervisor.state = .failed ↔
    ∃ failure, outcome.result = .error (.encode failure)
  untouched : outcome.supervisor.state = .notStarted ↔ ∃ f, outcome.result = .error (.host f)
  settled : outcome.supervisor.state ≠ .running
  silent : m.token.cancelled = true ∨ (ofSession session).unannounced? m ≠ none → m' = m
  announced : m.token.cancelled = false → (ofSession session).unannounced? m = none →
    ∃ (events : List Event) (seconds : Binary64),
    m'.record = events.reverse ++ m.record ∧
    events.filter Event.isCommand = [.commandStarted session.command, .started session.args,
      .commandEnded session.command (outcome.supervisor.exitCode.getD (-1)) seconds]
  spawned : m.token.cancelled = false → (ofSession session).unannounced? m = none →
    (outcome.supervisor.exitCode = none ↔ ∃ reason,
      m.encoderFor session.args = .missing reason ∨ m.encoderFor session.args = .unusable reason)
  once : outcome.supervisor.state ≠ .notStarted → ∀ o' m'', outcome.supervisor.run o' m'' =
    (⟨.error (.refused .sessionUsed), outcome.supervisor, o'⟩, m'')

/-- What is announced before the encoder is started: the line that is printed, the command, and the
process. -/
def announcement (s : Supervisor) (m : Machine) : List Event :=
  (if m.quiet then [] else [s.announcedLine]) ++
    [.commandStarted s.session.command, .started s.session.args]

theorem record_announce (s : Supervisor) (m : Machine) :
    (s.announce m).record = (s.announcement m).reverse ++ m.record := rfl

/-- A run that is announced, is silent meanwhile and ends its command tells of one command and one
process. -/
theorem exists_command (s : Supervisor) {m : Machine} (m' : Machine) {events : List Event}
    (hrecord : m'.record = events ++ (s.announce m).record)
    (hsilent : ∀ ev ∈ events, ev.isCommand = false) (code : Int) (seconds : Binary64) :
    ∃ (all : List Event) (time : Binary64),
      (m'.note (.commandEnded s.session.command code seconds)).record = all.reverse ++ m.record ∧
      all.filter Event.isCommand = [.commandStarted s.session.command, .started s.session.args,
        .commandEnded s.session.command code time] := by
  have hannounced : (s.announcement m).filter Event.isCommand =
      [.commandStarted s.session.command, .started s.session.args] := by
    unfold announcement
    cases m.quiet <;> rfl
  have hevents : events.reverse.filter Event.isCommand = [] := by
    rw [List.filter_eq_nil_iff]
    intro ev hev
    rw [hsilent ev (List.mem_reverse.mp hev)]
    exact Bool.false_ne_true
  refine ⟨s.announcement m ++ (events.reverse ++ [.commandEnded s.session.command code seconds]),
    seconds, ?_, ?_⟩
  · show .commandEnded s.session.command code seconds :: m'.record = _
    rw [hrecord, record_announce]
    simp
  · rw [List.filter_append, List.filter_append, hannounced, hevents]
    rfl

section

variable (session : Session) (o : Observers) {m : Machine}

theorem lifecycle_of_cancelled (h : m.token.cancelled = true) :
    Lifecycle session o m ((ofSession session).run o m).1 ((ofSession session).run o m).2 := by
  rw [run_of_cancelled session o h]
  have hsettled := isSettled_fail (ofSession session) o .cancelled session.output
  have hlive : m.token.cancelled ≠ false := by rw [h]; simp
  exact
    { returns := ⟨fun hr => absurd hr (by simp [fail]), fun hr => absurd hr.1 hlive⟩
      exits := fun hno => absurd hno hlive
      raises := hsettled.raises
      refused := fun f =>
        ⟨fun hr => absurd hr (by simp [fail, failure]), fun hr => absurd hr.1 hlive⟩
      succeeded := hsettled.succeeded_iff
      failed := hsettled.failed_iff
      untouched := hsettled.notStarted_iff
      settled := hsettled.settled
      silent := fun _ => rfl
      announced := fun hno => absurd hno hlive
      spawned := fun hno => absurd hno hlive
      once := run_of_used }

theorem lifecycle_of_unannounced (h : m.token.cancelled = false) {f : HostFault}
    (hf : (ofSession session).unannounced? m = some f) :
    Lifecycle session o m ((ofSession session).run o m).1 ((ofSession session).run o m).2 := by
  rw [run_of_unannounced session o h hf]
  have hsettled : IsSettled session.output ⟨.error (.host f), ofSession session, o⟩ :=
    .refused f rfl rfl
  have hnone : (ofSession session).unannounced? m ≠ none := by rw [hf]; simp
  exact
    { returns := ⟨fun hr => absurd hr (by simp), fun hr => absurd hr.2.1 hnone⟩
      exits := fun _ ha => absurd ha hnone
      raises := hsettled.raises
      refused := fun f' => by simp [h, hf]
      succeeded := hsettled.succeeded_iff
      failed := hsettled.failed_iff
      untouched := hsettled.notStarted_iff
      settled := hsettled.settled
      silent := fun _ => rfl
      announced := fun _ ha => absurd ha hnone
      spawned := fun _ ha => absurd ha hnone
      once := run_of_used }

/-- An encoder that does not start, for either reason. -/
theorem lifecycle_of_unstarted (h : m.token.cancelled = false)
    (ha : (ofSession session).unannounced? m = none) {outcome : RunOutcome} {reason : String}
    (hends : m.encoderFor session.args = .missing reason ∧
        outcome = (ofSession session).fail o (.notStarted reason) ∨
      m.encoderFor session.args = .unusable reason ∧
        outcome = ⟨.error (.host (.value reason)), ofSession session, o⟩) :
    Lifecycle session o m outcome
      ((ofSession session).unstarted ((ofSession session).announce m)) := by
  have hsettled : IsSettled session.output outcome := by
    rcases hends with ⟨-, rfl⟩ | ⟨-, rfl⟩
    · exact isSettled_fail _ _ _ _
    · exact .refused _ rfl rfl
  have hcode : outcome.supervisor.exitCode = none := by
    rcases hends with ⟨-, rfl⟩ | ⟨-, rfl⟩ <;> rfl
  have hscript : ∀ steps code stubborn cancelAtExit,
      m.encoderFor session.args ≠ .script steps code stubborn cancelAtExit := by
    rcases hends with ⟨he, -⟩ | ⟨he, -⟩ <;> simp [he]
  exact
    { returns := ⟨fun hr => absurd hr (by rcases hends with ⟨-, rfl⟩ | ⟨-, rfl⟩ <;> simp [fail]),
        fun ⟨_, _, ⟨_, _, _, _, he, _⟩, _⟩ => absurd he (hscript _ _ _ _)⟩
      exits := fun _ _ he => absurd he (hscript _ _ _ _)
      raises := hsettled.raises
      refused := fun f => by
        rcases hends with ⟨he, rfl⟩ | ⟨he, rfl⟩
        · simp [h, ha, he, fail, failure]
        · simp [h, ha, he, eq_comm]
      succeeded := hsettled.succeeded_iff
      failed := hsettled.failed_iff
      untouched := hsettled.notStarted_iff
      settled := hsettled.settled
      silent := fun hor => absurd hor (by simp [h, ha])
      announced := fun _ _ => by
        rw [hcode]
        exact exists_command (ofSession session) ((ofSession session).announce m)
          (List.nil_append _).symm (List.forall_mem_nil _) noExitCode (m.clock - m.clock)
      spawned := fun _ _ => ⟨fun _ => ⟨reason, hends.imp (·.1) (·.1)⟩, fun _ => hcode⟩
      once := run_of_used }

/-- An encoder that is started, whatever its script does. -/
theorem lifecycle_of_script (h : m.token.cancelled = false)
    (ha : (ofSession session).unannounced? m = none) {steps : List EncoderStep} {code : Int}
    {stubborn cancelAtExit : Bool}
    (he : m.encoderFor session.args = .script steps code stubborn cancelAtExit) :
    Lifecycle session o m ((ofSession session).run o m).1 ((ofSession session).run o m).2 := by
  rw [run_of_script session o h ha he]
  dsimp only
  have hsilent := isSilent_finish_taken session o m steps stubborn code cancelAtExit
  have hagree := (taken session o m steps stubborn).agree_finish code cancelAtExit
  have hsettled := isSettled_conclude { ofSession session with state := .running }
    ((taken session o m steps stubborn).finish code cancelAtExit)
  have hscript : ∀ {steps' code' stubborn' cancelAtExit'},
      m.encoderFor session.args = .script steps' code' stubborn' cancelAtExit' →
      steps = steps' ∧ code = code' ∧ stubborn = stubborn' ∧ cancelAtExit = cancelAtExit' :=
    fun he' => Encoder.script.inj (he.symm.trans he')
  refine
    { returns := ?returns, exits := ?exits, raises := hsettled.raises, refused := ?refused
      succeeded := hsettled.succeeded_iff, failed := hsettled.failed_iff
      untouched := hsettled.notStarted_iff, settled := hsettled.settled
      silent := fun hor => absurd hor (by simp [h, ha])
      announced := ?announced, spawned := ?spawned
      once := run_of_used }
  case returns =>
    rw [exitCode_conclude]
    refine (conclude_eq_ok_iff (s := { ofSession session with state := .running })).trans ?_
    rw [Control.failure?_eq_none_iff, hagree.readFailure, hagree.streamError,
      readFailure_taken_eq_none_iff, streamError_taken_eq_none_iff]
    constructor
    · rintro ⟨hr, hs, hcode⟩
      exact ⟨h, ha, ⟨steps, code, stubborn, cancelAtExit, he, hr, hs⟩, hcode⟩
    · rintro ⟨-, -, ⟨steps', code', stubborn', cancelAtExit', he', hr, hs⟩, hcode⟩
      obtain ⟨rfl, rfl, rfl, rfl⟩ := hscript he'
      exact ⟨hr, hs, hcode⟩
  case exits =>
    intro steps' code' stubborn' cancelAtExit' _ _ he'
    obtain ⟨rfl, rfl, rfl, rfl⟩ := hscript he'
    rw [exitCode_conclude]
    exact exitCode_of_script h code cancelAtExit
  case refused =>
    exact fun f => ⟨fun hr => absurd hr (result_conclude_ne_host _ _ f), by simp [ha, he]⟩
  case announced =>
    intro _ _
    rw [exitCode_conclude]
    exact exists_command (ofSession session) (leave ((ofSession session).announce m) _) rfl
      hsilent _ _
  case spawned =>
    intro _ _
    rw [exitCode_conclude, exitCode_finish_taken session o m steps stubborn h]
    simp [he]

end

/-- **Lifecycle.** Every run of a new supervisor goes through the whole lifecycle. -/
theorem run_lifecycle (session : Session) (o : Observers) (m : Machine) :
    Lifecycle session o m ((ofSession session).run o m).1 ((ofSession session).run o m).2 := by
  cases h : m.token.cancelled with
  | true => exact lifecycle_of_cancelled session o h
  | false =>
    cases ha : (ofSession session).unannounced? m with
    | some f => exact lifecycle_of_unannounced session o h ha
    | none =>
      cases he : m.encoderFor session.args with
      | missing reason =>
        rw [run_of_missing session o h ha he]
        exact lifecycle_of_unstarted session o h ha (.inl ⟨he, rfl⟩)
      | unusable reason =>
        rw [run_of_unusable session o h ha he]
        exact lifecycle_of_unstarted session o h ha (.inr ⟨he, rfl⟩)
      | script steps code stubborn cancelAtExit => exact lifecycle_of_script session o h ha he

/-- One second of a source under a picture, without music. -/
def oneSecond : Session where
  tool := .text "ffmpeg"
  image := .text "img.png"
  timeline := ⟨[⟨[Clip.second "a.mp3" 0], 1, Binary64.one_lt_zero⟩]⟩
  fitMode := .cover
  music := .null
  mainGain := 1
  musicGain := none
  output := "/out/output.mp4"
  slots := ⟨[.text "a.mp3"], false⟩
  graph := ⟨[.clip 0 1 "0" "1" "1" 0, .mix 1 "1"], Chain.mixLabel⟩
  videoFilter := FitMode.cover.filter "1280:720"

/-- The same second under a picture whose name holds a null character. -/
def nullNamed : Session := { oneSecond with image := .text "a\x00.png" }

/-- A quiet machine whose system refuses what has a form that it cannot take, and whose encoder
would do well. -/
def particular : Machine :=
  { Machine.bare with
    encoder := .script [] 0 false false
    quiet := true
    refuses := refusedForm }

/-- An argument with a null character cannot be handed over: the run raises a fault that is no
encode failure, its supervisor has not started, and running it again tries the encoder again. -/
theorem run_unusable_nullNamed : particular.token.cancelled = false ∧
    let outcome := ((ofSession nullNamed).run .standard particular).1
    outcome.result = .error (.host (.value "embedded null byte")) ∧
    outcome.supervisor.state = .notStarted ∧
    (outcome.supervisor.run .standard particular).2.record =
      [.commandEnded nullNamed.command (-1) (0 - 0), .started nullNamed.args,
        .commandStarted nullNamed.command] := by
  have he : particular.encoderFor nullNamed.args = .unusable "embedded null byte" := rfl
  have hrun := run_of_unusable nullNamed .standard (m := particular) rfl rfl he
  rw [hrun]
  refine ⟨rfl, rfl, rfl, ?_⟩
  rw [show (ofSession nullNamed).run .standard particular = _ from hrun]
  rfl

theorem isCommand_or_isNotice_announcement (s : Supervisor) (m : Machine) :
    ∀ ev ∈ s.announcement m, ev.isCommand = true ∨ ev.isNotice = true := by
  unfold announcement
  intro ev hev
  rw [List.mem_append, List.mem_cons, List.mem_singleton] at hev
  rcases hev with hev | rfl | rfl
  · split at hev
    · exact absurd hev List.not_mem_nil
    · rw [List.mem_singleton.mp hev]
      exact .inr rfl
  · exact .inl rfl
  · exact .inl rfl

/-- All that a run adds to the record are commands and notices. -/
theorem run_record (session : Session) (o : Observers) (m : Machine) :
    ∃ events, ((ofSession session).run o m).2.record = events ++ m.record ∧
      ∀ ev ∈ events, ev.isCommand = true ∨ ev.isNotice = true := by
  have hannounced := isCommand_or_isNotice_announcement (ofSession session) m
  have hunstarted : ∃ events, ((ofSession session).unstarted
        ((ofSession session).announce m)).record = events ++ m.record ∧
      ∀ ev ∈ events, ev.isCommand = true ∨ ev.isNotice = true := by
    refine ⟨_ :: ((ofSession session).announcement m).reverse, rfl, ?_⟩
    refine List.forall_mem_cons.mpr ⟨.inl rfl, fun ev hev => ?_⟩
    exact hannounced ev (List.mem_reverse.mp hev)
  cases h : m.token.cancelled with
  | true =>
    rw [run_of_cancelled session o h]
    exact ⟨[], rfl, List.forall_mem_nil _⟩
  | false =>
    cases ha : (ofSession session).unannounced? m with
    | some f =>
      rw [run_of_unannounced session o h ha]
      exact ⟨[], rfl, List.forall_mem_nil _⟩
    | none =>
    cases he : m.encoderFor session.args with
    | missing reason =>
      rw [run_of_missing session o h ha he]
      exact hunstarted
    | unusable reason =>
      rw [run_of_unusable session o h ha he]
      exact hunstarted
    | script steps code stubborn cancelAtExit =>
      rw [run_of_script session o h ha he]
      have hbegun : ((ofSession session).begin o ((ofSession session).announce m)
          stubborn).OnlyNotices := List.forall_mem_nil _
      have hnotices := Run.kept_onlyNotices.finish (Run.kept_onlyNotices.foldl_step hbegun steps)
        code cancelAtExit
      refine ⟨_ :: (_ ++ ((ofSession session).announcement m).reverse),
        (congrArg (List.cons _) (List.append_assoc _ _ _)).symm, ?_⟩
      refine List.forall_mem_cons.mpr ⟨.inl rfl, List.forall_mem_append.mpr ⟨?_, ?_⟩⟩
      · exact fun ev hev => .inr (hnotices ev hev)
      · exact fun ev hev => hannounced ev (List.mem_reverse.mp hev)

end Supervisor

end StillVideo
