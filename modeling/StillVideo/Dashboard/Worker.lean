import StillVideo.Dashboard.Screen
import StillVideo.Project.Production

/-!
The dashboard at work on a project.

The dashboard draws its panels, reads and validates the project, runs it and shows how it ended.
Whatever goes wrong with the project is shown and never ends the dashboard. Somebody may leave the
dashboard at any moment, which cancels the work; no look from then on lets anything be drawn or
written.
-/

namespace StillVideo

/-- What the dashboard shows, and what it has been told. -/
structure Dashboard where
  path : Document
  outputOverride : Document
  keep : Bool
  cache : Document
  phase : Dashboard.Phase
  errorText : Option String
  outputFile : Option String
  info : List (Scalar × Document)
  sample : Option SampleFields
  startedAt : Document
  stoppedAt : Document
  runPanels : List Dashboard.Panel
  projectPanels : List Dashboard.Panel
  screen : List Dashboard.ScreenEntry
  requests : List Dashboard.Request
  timers : List Binary64

namespace Dashboard

/-- A dashboard that has not drawn anything. Panels and requests are listed with the latest one
last. -/
def ofPath (path outputOverride : Document) (keep : Bool) (cache : Document) : Dashboard :=
  { path, outputOverride, keep, cache, phase := .starting, errorText := none, outputFile := none,
    info := [], sample := none, startedAt := .null, stoppedAt := .null, runPanels := [],
    projectPanels := [], screen := [], requests := [], timers := [] }

/-- The time since the beginning, up to the end if the work is over. -/
def elapsed (d : Dashboard) (now : Document) : Except Fault Document := do
  if d.startedAt.isNull then return .real 0
  else
    let stop ← Number.ofDocument (if d.stoppedAt.isNull then now else d.stoppedAt)
    return (← stop.sub (← Number.ofDocument d.startedAt)).toDocument

/-- Draws the panel of the run. -/
def drawRun (d : Dashboard) (now : Document) : Except Fault Dashboard := do
  let panel ← runPanel d.phase (← d.elapsed now) d.sample
  return { d with runPanels := d.runPanels ++ [panel] }

/-- Draws the panel of the project. -/
def drawProject (d : Dashboard) : Except Fault Dashboard := do
  let panel ← projectPanel d.path d.outputOverride d.info
  return { d with projectPanels := d.projectPanels ++ [panel] }

/-- The seconds between two drawings of the run. -/
def refreshInterval : Binary64 := .ofQuotient false 1 2

/-- Begins: both panels are drawn, and the run is drawn again and again from now on. -/
def mount (d : Dashboard) (now : Binary64) : Except Fault Dashboard := do
  let d ← { d with startedAt := .real now }.drawProject
  let d ← d.drawRun (.real now)
  return { d with timers := d.timers ++ [refreshInterval] }

/-- Somebody leaves, which cancels the work. -/
def leave (d : Dashboard) : Job Dashboard := do
  modify (·.cancel)
  return { d with requests := d.requests ++ [.quit] }

/-- Leaves and closes the screen. -/
def quit (d : Dashboard) : Job Dashboard := do
  let d ← d.leave
  return { d with screen := d.screen ++ [.exit] }

/-- The worker has something to post. -/
def ask (d : Dashboard) (post : Post) : Dashboard :=
  { d with requests := d.requests ++ [.look .worker post] }

/-- What is known of a validated session. -/
def sessionInfo (p : Project) (s : Session) : List (Scalar × Document) :=
  [(.text "output", .text s.output),
   (.text "clips", .int p.file.timeline.clipCount),
   (.text "length", .real s.totalDuration),
   (.text "fit", .text s.fitMode.name),
   (.text "music", s.music)]

/-- The observers of the dashboard: it takes every sample and hears every line. -/
def observers : Observers :=
  ⟨some fun _ => ⟨false, none⟩, [],
    .start (some Diagnostics.defaultKeep) false (some fun _ => none)⟩

/-- The phase that a fault leads to. -/
def faultPhase : Fault → Phase
  | .encode e => if e.cancelled.isGiven then .cancelled else .failed
  | _ => .failed

/-- How the project ended. -/
def conclude (d : Dashboard) : Except Fault (Option String) → Dashboard
  | .ok path => { d with phase := .done, outputFile := path }
  | .error f => { d with phase := faultPhase f, errorText := some f.message }

/-- Draws the project unless the work was cancelled when the worker looked. -/
def showProject (d : Dashboard) (looked : Machine) : Except Fault Dashboard :=
  if looked.token.cancelled then .ok d else d.drawProject

/-- The events of a machine that an earlier one did not have, in order. -/
def newEvents (earlier later : Machine) : List Event :=
  (later.record.take (later.record.length - earlier.record.length)).reverse

/-- Moments of the work outside of a run: the project has been read, it has been validated, the
worker has looked at the token before the project is shown, it has been shown, its run is over, and
the worker has looked at the token before the outcome is shown. -/
inductive Moment
  | read | validated | looked | shown | over | closing
  deriving DecidableEq, Repr

/-- A moment at which somebody leaves, or not. -/
def pass (d : Dashboard) (leaves : Bool) : Job Dashboard := if leaves then d.leave else pure d

/-- Runs a validated project: what happens is logged, and the samples come in. -/
def encode (d : Dashboard) (p : Production) : Job Dashboard := do
  let before ← Job.machine
  let (result, p) ← p.project.work p.observers ProjectJob.run
  let events := newEvents before (← Job.machine)
  let entries ← Job.ofExcept (screenEntries before.token.cancelled
    (events.filterMap (Signal.ofEvent before.reporting)))
  return { d with
    requests := d.requests ++ events.filterMap (Request.ofEvent before.reporting)
    screen := d.screen ++ entries
    sample := (p.observers.received.getLast?.map Sample.fields) <|> d.sample }.conclude result

/-- Validates a project, shows it, and runs it. -/
def produce (d : Dashboard) (leaves : Moment → Bool) (p : Project) : Job Dashboard := do
  let (result, production) ← p.work observers ProjectJob.validate
  match result with
  | .error f => return d.conclude (.error f)
  | .ok session =>
    let d ← { d with info := sessionInfo production.project session }.pass (leaves .validated)
    let looked ← Job.machine
    let d ← (d.ask .project).pass (leaves .looked)
    match d.showProject looked with
    | .error f => return d.conclude (.error f)
    | .ok d =>
      let d ← d.pass (leaves .shown)
      encode { d with phase := .encoding } production

/-- The options of a project on the dashboard. -/
def projectOptions (d : Dashboard) : ProjectOptions :=
  ⟨d.outputOverride, false, d.keep, d.cache, .null⟩

/-- The line that tells how the project ended. -/
def outcomeEntry (d : Dashboard) : List ScreenEntry :=
  match d.phase, d.errorText with
  | .done, _ => [.logText ("complete: " ++ (Document.ofText? d.outputFile).display) .good]
  | _, some text => [.logText ("error: " ++ text) .bad]
  | _, none => []

/-- Shows how the project ended, unless the work was cancelled when the worker looked. A run that
cannot be drawn any more stays as it was drawn. -/
def showOutcome (d : Dashboard) (looked : Machine) : Dashboard :=
  if looked.token.cancelled then d
  else
    let d := { d with screen := d.screen ++ d.outcomeEntry }
    match d.drawRun (.real looked.clock) with
    | .ok drawn => drawn
    | .error _ => d

/-- Works on the project to its end, while somebody leaves at some moments. Meanwhile the machine is
quiet and reports its commands to the dashboard. -/
def workLeaving (d : Dashboard) (leaves : Moment → Bool) : Job Dashboard := do
  modify fun m => { m with quiet := true, reporting := true }
  let d ←
    try
      let p ← Project.load d.path d.projectOptions
      (← d.pass (leaves .read)).produce leaves p
    catch f => pure (d.conclude (.error f))
  let d := { d with stoppedAt := .real (← Job.machine).clock }
  modify fun m => { m with quiet := false, reporting := false }
  let d ← d.pass (leaves .over)
  let looked ← Job.machine
  let d ← (d.ask .outcome).pass (leaves .closing)
  return d.showOutcome looked

/-- Works on the project to its end. -/
def work (d : Dashboard) : Job Dashboard := d.workLeaving fun _ => false

end Dashboard

end StillVideo
