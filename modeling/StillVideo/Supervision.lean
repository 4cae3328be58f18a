import StillVideo.Channel
import StillVideo.Diagnostics
import StillVideo.Machine
import StillVideo.Progress
import StillVideo.Session

/-!
Supervised encoder runs.

The encoder is started once for a session. Its output pipe carries progress, its error pipe free
text; both are read as they come, until the encoder closes them, a read fails or the run is
cancelled. How the run goes is decided by `Control` alone: the lines, the failures and the token.
Observers, which are a progress consumer and the recorded lines, get the reports of each step and
can only cancel the run as anyone can. A line that is to be shown and cannot be shown counts as a
failure to read its pipe.
-/

namespace StillVideo

/-! ## Observers -/

/-- What a progress consumer does on a sample. -/
structure Reaction where
  cancels : Bool
  failure : Option String

/-- A progress consumer: from all samples that it has received, the latest one last, it says what it
does on the latest. -/
abbrev Consumer := List Sample → Reaction

/-- Who watches a run: a consumer, the samples that it has received, and the recorded lines. -/
structure Observers where
  consumer : Option Consumer
  received : List Sample
  diagnostics : Diagnostics

namespace Observers

/-- Nobody but the default record of lines. -/
def standard : Observers := ⟨none, [], .standard⟩

/-- Why the machine does not show a line, if it is to be shown and is not. -/
def unshown? (o : Observers) (m : Machine) (line : String) : Option HostFault :=
  if o.diagnostics.echo && !m.quiet then
    m.refuses (.printed (Diagnostics.shown (.text line) ++ "\n"))
  else none

/-- A line that cannot be shown is kept, and nobody hears it. -/
def keep (o : Observers) (line : Document) : Observers :=
  { o with diagnostics := o.diagnostics.push line }

/-- A line that can be shown is recorded, shown unless all is to be quiet, and heard if anybody
listens. -/
def record (o : Observers) (quiet : Bool) (pipe line : Document) : Observers × List Event :=
  let shown := if o.diagnostics.echo && !quiet then
      [Event.printed (Diagnostics.shown line ++ "\n")] else []
  let heard := if o.diagnostics.listener.isSome then [Event.heard pipe line] else []
  ({ o with diagnostics := o.diagnostics.record pipe line }, shown ++ heard)

end Observers

/-! ## The encoder process -/

/-- The encoder as its supervisor sees it: its exit code when it has exited, whether it ignores
requests to stop, how many of them it got, and whether it was killed. -/
structure EncoderProcess where
  exitCode : Option Int
  stubborn : Bool
  terminations : Nat
  killed : Bool

namespace EncoderProcess

/-- The exit code of an encoder that was asked to stop. -/
def stoppedCode : Int := -15

/-- The exit code of an encoder that was killed. -/
def killedCode : Int := -9

/-- An encoder that has just been started. -/
def start (stubborn : Bool) : EncoderProcess := ⟨none, stubborn, 0, false⟩

/-- Asks a running encoder to stop; one that has exited is left alone. -/
def terminate (p : EncoderProcess) : EncoderProcess :=
  match p.exitCode with
  | some _ => p
  | none =>
    { p with
      terminations := p.terminations + 1
      exitCode := if p.stubborn then none else some stoppedCode }

/-- The exit: an encoder that was asked to stop and did not is killed, any other one exits with its
own code. -/
def wait (p : EncoderProcess) (code : Int) : EncoderProcess :=
  match p.exitCode with
  | some _ => p
  | none =>
    if p.terminations = 0 then { p with exitCode := some code }
    else { p with exitCode := some killedCode, killed := true }

end EncoderProcess

/-! ## Control -/

/-- All that decides how a run goes: the token, the encoder, whether its output is still read, why
reading a pipe failed, the progress so far with all samples that were published, and which lines
cannot be shown. -/
structure Control where
  token : CancelToken StopAction
  process : EncoderProcess
  reading : Bool
  readFailure : Option String
  streamError : Option String
  accumulator : Accumulator
  published : List Sample
  refused : String → Option HostFault

/-- What observers get to know of a step. -/
inductive Report
  | nothing
  | sample (s : Sample)
  | line (pipe : Pipe) (text : String)

namespace Control

/-- A run that has just started its encoder and is ready to stop it. -/
def start (token : CancelToken StopAction) (total : Binary64) (stubborn : Bool)
    (refused : String → Option HostFault) : Control :=
  let process := EncoderProcess.start stubborn
  match token.register .stopEncoder with
  | (token, none) => ⟨token, process, true, none, none, .start total, [], refused⟩
  | (token, some .stopEncoder) =>
    ⟨token, process.terminate, true, none, none, .start total, [], refused⟩

/-- The latest sample. -/
def lastSample (c : Control) : Option Sample := c.published.getLast?

/-- Asks the encoder to stop. -/
def terminate (c : Control) : Control := { c with process := c.process.terminate }

/-- Cancels the run. -/
def cancel (c : Control) : Control :=
  c.token.request.2.foldl (fun c action => match action with | .stopEncoder => c.terminate)
    { c with token := c.token.request.1 }

/-- A pipe is still read. -/
def isRead (c : Control) : Pipe → Bool
  | .output => c.reading
  | .errors => c.streamError.isNone

/-- A field of progress, which may complete a sample. -/
def feed (c : Control) (key value : String) : Control × Report :=
  match c.accumulator.feed key value with
  | (accumulator, none) => ({ c with accumulator }, .nothing)
  | (accumulator, some s) => ({ c with accumulator, published := c.published ++ [s] }, .sample s)

/-- Reading a pipe fails. If it is the output, the encoder is asked to stop. -/
def breakOff (c : Control) : Pipe → String → Control
  | .output, reason => { c.terminate with reading := false, readFailure := some reason }
  | .errors, reason => { c with streamError := some reason }

/-- A line is recorded; one that cannot be shown ends the reading of its pipe. -/
def note (c : Control) (pipe : Pipe) (line : String) : Control × Report :=
  match c.refused line with
  | none => (c, .line pipe line)
  | some f => (c.breakOff pipe f.reason, .line pipe line)

/-- A line of output: none counts when the run is cancelled. -/
def readOutput (c : Control) (line : String) : Control × Report :=
  if c.token.cancelled then ({ c.terminate with reading := false }, .nothing)
  else
    match EncoderLine.read .output line with
    | .progress key value => c.feed key value
    | .unrecognized text =>
      if EncoderLine.isBlankText text.toList then (c, .nothing) else c.note .output text
    | .diagnostic _ => (c, .nothing)

/-- A line of the error pipe. -/
def readErrors (c : Control) (line : String) : Control × Report :=
  match EncoderLine.read .errors line with
  | .diagnostic text => c.note .errors text
  | _ => (c, .nothing)

/-- A delivery from a pipe. -/
def deliver (c : Control) : Pipe → Delivery → Control × Report
  | .output, .line text => c.readOutput text
  | .errors, .line text => c.readErrors text
  | pipe, .failure reason => (c.breakOff pipe reason, .nothing)

/-- The encoder exits. -/
def wait (c : Control) (code : Int) : Control := { c with process := c.process.wait code }

end Control

/-! ## Verdicts -/

/-- Why a run has failed. -/
inductive FailureCause
  | cancelled
  | notStarted (reason : String)
  | unreadable (reason : String)
  | badExit
  deriving DecidableEq, Repr

/-- The headline of a failure report. -/
def FailureCause.headline : FailureCause → String
  | .cancelled => "encode cancelled"
  | .notStarted reason => "failed to spawn ffmpeg: " ++ reason
  | .unreadable reason => "failed to read ffmpeg output: " ++ reason
  | .badExit => "ffmpeg encoding failed"

/-- Why a run has failed when its encoder has exited: unreadable output comes first, then a run is
good if the encoder says so and its errors could be read, then cancellation explains all else. -/
def Control.failure? (c : Control) : Option FailureCause :=
  match c.readFailure with
  | some reason => some (.unreadable reason)
  | none =>
    if c.process.exitCode = some 0 ∧ c.streamError = none then none
    else if c.token.cancelled then some .cancelled
    else
      match c.streamError with
      | some reason => some (.unreadable reason)
      | none => some .badExit

/-! ## Runs -/

/-- A run in progress: its control, the channel to the consumer, the observers, and what happens
meanwhile, the latest event first. -/
structure Run where
  control : Control
  channel : Channel Sample
  observers : Observers
  quiet : Bool
  clock : Binary64
  events : List Event

namespace Run

/-- Cancels the run. -/
def cancel (r : Run) : Run :=
  { r with control := r.control.cancel, events := .cancelled :: r.events }

/-- Records a line. -/
def record (r : Run) (pipe : Pipe) (line : String) : Run :=
  match r.control.refused line with
  | some _ => { r with observers := r.observers.keep (.text line) }
  | none =>
    let (observers, events) := r.observers.record r.quiet (.text pipe.name) (.text line)
    { r with observers, events := events.reverse ++ r.events }

/-- What the consumer does on the sample that it has just received. -/
def reaction (r : Run) : Reaction :=
  match r.observers.consumer with
  | some consumer => consumer r.observers.received
  | none => ⟨false, none⟩

/-- The consumer gets a sample, may cancel the run, and finishes with the sample or fails on it. -/
def consume (r : Run) (s : Sample) : Run :=
  let r := { r with observers.received := r.observers.received ++ [s] }
  let reaction := r.reaction
  let r := if reaction.cancels then r.cancel else r
  match reaction.failure with
  | none => { r with channel := r.channel.act .finish }
  | some reason =>
    { r with channel := r.channel.act (.fail reason) }.record .errors (Channel.failureNote reason)

/-- Publishes a sample; an idle consumer gets it at once. -/
def publish (r : Run) (s : Sample) : Run :=
  let r := { r with channel := r.channel.act (.publish s) }
  match r.channel.current with
  | some s => r.consume s
  | none => r

/-- Lets observers know of a step. -/
def report (r : Run) : Report → Run
  | .nothing => r
  | .sample s => r.publish s
  | .line pipe text => r.record pipe text

/-- One step of the encoder; what comes from a pipe that is not read any more is lost. -/
def step (r : Run) (e : EncoderStep) : Run :=
  if r.control.isRead e.pipe then
    let r := { r with clock := r.clock + e.seconds }
    let r := if e.cancels then r.cancel else r
    let (control, report) := r.control.deliver e.pipe e.delivery
    { r with control }.report report
  else r

/-- The end: the channel is closed and the encoder exits, which may be too late for cancelling. -/
def finish (r : Run) (code : Int) (cancelAtExit : Bool) : Run :=
  let r := { r with channel := r.channel.act .close, control := r.control.wait code }
  if cancelAtExit then r.cancel else r

end Run

/-! ## Supervisors -/

/-- How far a session has come. -/
inductive SessionState
  | notStarted | running | succeeded | failed
  deriving DecidableEq, Repr

/-- The name of a state. -/
def SessionState.name : SessionState → String
  | .notStarted => "not_started"
  | .running => "running"
  | .succeeded => "succeeded"
  | .failed => "failed"

/-- The supervisor of one session: its state, and what is known of the run when it is over. -/
structure Supervisor where
  session : Session
  state : SessionState
  exitCode : Option Int
  lastSample : Option Sample
  streamError : Option String
  process : Option EncoderProcess

/-- How a run ended: with the path of the video or a fault. -/
structure RunOutcome where
  result : Except Fault String
  supervisor : Supervisor
  observers : Observers

namespace Supervisor

/-- A supervisor that has not started anything. -/
def ofSession (session : Session) : Supervisor := ⟨session, .notStarted, none, none, none, none⟩

/-- The report of a failure. -/
def failure (s : Supervisor) (o : Observers) (cause : FailureCause) : Fault :=
  .encode
    { headline := cause.headline
      context := s.session.plan.entries
      exitCode := (s.exitCode.map Document.int).getD .null
      cancelled := .bool (cause = .cancelled)
      diagnostics := o.diagnostics.tail Diagnostics.defaultTail }

/-- A run that failed. -/
def fail (s : Supervisor) (o : Observers) (cause : FailureCause) : RunOutcome :=
  let s := { s with state := .failed }
  ⟨.error (s.failure o cause), s, o⟩

/-- What a supervisor knows when the encoder has exited. -/
def conclude (s : Supervisor) (r : Run) : RunOutcome :=
  let s := { s with
    exitCode := r.control.process.exitCode
    lastSample := r.control.lastSample
    streamError := r.control.streamError
    process := some r.control.process }
  match r.control.failure? with
  | some cause => s.fail r.observers cause
  | none => ⟨.ok s.session.output, { s with state := .succeeded }, r.observers⟩

/-- The run of an encoder that has just been started. -/
def begin (s : Supervisor) (o : Observers) (m : Machine) (stubborn : Bool) : Run :=
  { control := .start m.token s.session.totalDuration stubborn (o.unshown? m)
    channel := .start o.consumer.isSome
    observers := o
    quiet := m.quiet
    clock := m.clock
    events := [] }

/-- The machine after a run: nothing is left to be stopped. -/
def leave (m : Machine) (r : Run) : Machine :=
  { m with
    clock := r.clock
    token := { r.control.token with callbacks := [] }
    record := r.events ++ m.record }

/-- The exit code that is reported for an encoder that never exited. -/
def noExitCode : Int := -1

/-- The line that announces a run. -/
def announcedLine (s : Supervisor) : Event := .printed ("CMD: '" ++ s.session.command ++ "'\n")

/-- Why the machine does not announce a run, if it is to be announced and is not. -/
def unannounced? (s : Supervisor) (m : Machine) : Option HostFault :=
  if m.quiet then none else m.refuses s.announcedLine

/-- Announces a run and starts its encoder. -/
def announce (s : Supervisor) (m : Machine) : Machine :=
  let printed := if m.quiet then [] else [s.announcedLine]
  m.noteAll (printed ++ [.commandStarted s.session.command, .started s.session.args])

/-- An encoder that has not been started; the end of its command is reported all the same. -/
def unstarted (s : Supervisor) (m : Machine) : Machine :=
  m.note (.commandEnded s.session.command noExitCode (m.clock - m.clock))

/-- Runs the session to its end. A session is run once; a run that is cancelled before it begins
starts nothing, and neither does one that cannot be announced. An encoder that cannot be given its
arguments leaves the session as it was. -/
def run (s : Supervisor) (o : Observers) (m : Machine) : RunOutcome × Machine :=
  if s.state ≠ .notStarted then (⟨.error (.refused .sessionUsed), s, o⟩, m)
  else if m.token.cancelled then (s.fail o .cancelled, m)
  else
    match s.unannounced? m with
    | some f => (⟨.error (.host f), s, o⟩, m)
    | none =>
      let m := s.announce m
      match m.encoderFor s.session.args with
      | .missing reason => (s.fail o (.notStarted reason), s.unstarted m)
      | .unusable reason => (⟨.error (.host (.value reason)), s, o⟩, s.unstarted m)
      | .script steps code stubborn cancelAtExit =>
        let r := (steps.foldl Run.step (s.begin o m stubborn)).finish code cancelAtExit
        let exitCode := r.control.process.exitCode.getD noExitCode
        ({ s with state := .running }.conclude r,
          (leave m r).note (.commandEnded s.session.command exitCode (r.clock - m.clock)))

/-- The run as a job, which itself never fails. -/
def job (s : Supervisor) (o : Observers) : Job RunOutcome := fun m =>
  let (outcome, m) := s.run o m
  (.ok outcome, m)

end Supervisor

end StillVideo
