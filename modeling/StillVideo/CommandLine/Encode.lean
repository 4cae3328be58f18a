import StillVideo.CommandLine.ProgressBar
import StillVideo.CommandLine.Settings
import StillVideo.FlatJob
import StillVideo.Project.Production

/-!
The encoding command: makes the video of a project or of audio files, or shows what it would do.

A fault that the program explains is written as a complaint and gives the exit code 1, a cancelled
run 130. A plan is shown instead of a command if both are asked for.
-/

namespace StillVideo.EncodeCommand

/-- What a command is asked for comes to: a video, a plan that is shown, or nothing more than what
has been printed. -/
inductive Product
  | video (path : String)
  | plan (d : Document)
  | nothing

/-- How a command ends: its exit code, what it complains about, the plan that it shows, and the
samples that its progress bar got. -/
structure Ending where
  exitCode : Int
  complaint : String
  plan : Option Document
  samples : List Sample

/-- The exit code of a command that was cancelled. -/
def cancelledCode : Int := 130

/-- The observers of a command: a progress bar, which goes along with everything. -/
def observers : Observers := ⟨some fun _ => ⟨false, none⟩, [], .standard⟩

/-- The frame size of a job without a project. -/
def frameSize : Int × Int := (1280, 720)

/-- The job that the settings ask for. -/
def flatJob (s : EncodeSettings) : Except Fault FlatJob := do
  let (directory, name) ← s.outputParts
  return { image := s.image
           audio := .sequence s.audio
           durations := if s.durations.isEmpty then .null else .sequence s.durations
           tool := .null
           width := .int frameSize.1
           height := .int frameSize.2
           options :=
             { fitMode := s.fit
               music := s.music
               musicVolume := s.musicVolume
               mainVolume := s.volume
               outputDirectory := directory
               outputName := name } }

/-- The result of a run with the samples that the observers got. -/
def ofOutcome (o : RunOutcome) : Except Fault Product × List Sample :=
  (o.result.map .video, o.observers.received)

/-- Audio files are joined and encoded, or the plan or the command is shown. -/
def runFlat (s : EncodeSettings) : Job (Except Fault Product × List Sample) := do
  let job ← Job.ofExcept (flatJob s)
  if s.dumpPlan then
    let plan := (← job.plan .null).planWithArguments
    Job.act (.planned plan)
    return (.ok (.plan plan), [])
  else if s.dryRun then
    Job.print (← job.plan .null).command
    return (.ok .nothing, [])
  else return ofOutcome (← job.run s.cache s.keep observers)

/-- The work on a project: its plan or its video. -/
def projectWork (s : EncodeSettings) : ProjectJob Product := do
  if s.dumpPlan then
    let plan ← ProjectJob.plan
    ProjectJob.cleanup
    ProjectJob.onMachine (Job.act (.planned plan))
    return .plan plan
  else
    match ← ProjectJob.run with
    | some path => return .video path
    | none => return .nothing

/-- A project is encoded, or its plan or its command is shown. -/
def runProject (s : EncodeSettings) : Job (Except Fault Product × List Sample) := do
  let p ← Project.load s.project ⟨s.output, s.dryRun, s.keep, s.cache, .null⟩
  let (result, production) ← p.work observers (projectWork s)
  return (result, production.observers.received)

/-- What the settings ask for. -/
def produce (s : EncodeSettings) : Job (Except Fault Product × List Sample) :=
  if s.project.isNull then runFlat s else runProject s

/-- The exit code for a fault that the program explains. -/
def faultCode : Fault → Option Int
  | .encode e => some (if e.cancelled.isGiven then cancelledCode else 1)
  | .refused _ | .nesting => some 1
  | _ => none

/-- The complaint about a fault. -/
def complaint (f : Fault) : String := "error: " ++ f.message ++ "\n"

/-- The end of a command that has made something. -/
def succeed (p : Product) (samples : List Sample) : Job Ending := do
  match p with
  | .video path =>
    Job.print ("Video created successfully: " ++ path)
    return ⟨0, "", none, samples⟩
  | .plan d => return ⟨0, "", some d, samples⟩
  | .nothing => return ⟨0, "", none, samples⟩

/-- The end of a command with a fault; one that the program does not explain is not caught. -/
def failWith (f : Fault) (samples : List Sample) : Job Ending :=
  match faultCode f with
  | some code => return ⟨code, complaint f, none, samples⟩
  | none => throw f

/-- Runs the command. -/
def run (s : EncodeSettings) : Job Ending := do
  modify fun m => { m with quiet := s.quiet }
  let (result, samples) ←
    try produce s catch f => pure (.error f, [])
  match result with
  | .ok p => succeed p samples
  | .error f => failWith f samples

end StillVideo.EncodeCommand
