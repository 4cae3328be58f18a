import StillVideo.Concatenation
import StillVideo.Supervision

/-!
Jobs without a project file: a picture and whole audio files that are played back to back.

Several files are joined first. A plan joins nothing: it names the joined file that a run would
make. What a plan and a run have in common is built by the same function, so a plan shows what is
run.
-/

namespace StillVideo

/-- A request for a video of whole audio files, which are the parts of a value. Durations are
measured unless they are given. -/
structure FlatJob where
  image : Document
  audio : Document
  durations : Document
  tool : Document
  width : Document
  height : Document
  options : SessionOptions

namespace FlatJob

/-- The audio files in order. -/
def files (j : FlatJob) : Except Fault (List Document) := j.audio.countedParts

/-- The directory of the output: the one asked for, or that of the first file. -/
def outputDirectory (j : FlatJob) : Job Document := do
  let files ← Job.ofExcept j.files
  if files.isEmpty then Job.refuse .noAudioFiles
  else if j.options.outputDirectory.isNull then
    let first ← Job.ofExcept (j.audio.firstOf files)
    return .text (← Job.ofExcept (directoryOfValue (← Job.machine).cwd first))
  else return j.options.outputDirectory

/-- The job with its output directory and its encoder decided. -/
def resolve (j : FlatJob) : Job FlatJob := do
  let directory ← j.outputDirectory
  let tool ← requireEncoder j.tool
  return { j with tool, options.outputDirectory := directory }

/-- The sum of given durations, from left to right. -/
def sumDurations (ds : List Document) : Except Fault Binary64 := do
  return (← ds.mapM Document.toReal).foldl (· + ·) 0

/-- The length of all files together: the sum of what is given or measured. -/
def total (j : FlatJob) (files : List Document) : Job Binary64 := do
  if j.durations.isNull then
    files.foldlM (fun sum audio => do return sum + (← probeLength audio j.tool)) 0
  else
    let ds ← Job.ofExcept j.durations.countedParts
    if ds.length ≠ files.length then Job.refuse .durationCount
    else Job.ofExcept (sumDurations ds)

/-- The directory of files that nobody asked to keep. -/
def temporaryDirectory : String := "/tmp"

/-- The file that the session reads: the only one, or the joined one. -/
def sessionAudio (files : List Document) (first joined : Document) : Except Fault Document := do
  match files with
  | [_] => return first
  | _ =>
    if joined.isNull then
      return .text (Path.join temporaryDirectory (joinedName [← first.toPath]))
    else return joined

/-- The session of a job whose output directory and encoder are decided. -/
def session (j : FlatJob) (joined : Document) : Job Session := do
  let files ← Job.ofExcept j.files
  let first ← Job.ofExcept (j.audio.firstOf files)
  let audio ← Job.ofExcept (sessionAudio files first joined)
  let total ← j.total files
  let builder ← Job.ofExcept (SessionBuilder.make j.tool j.width j.height)
  builder.buildFlat j.image audio (.real total) j.options

/-- The session that a run would have, reading `joined` if several files are to be joined. -/
def plan (j : FlatJob) (joined : Document) : Job Session := do
  (← j.resolve).session joined

/-- The job that reads one joined file: its duration is measured unless all durations are given. -/
def sessionOfJoined (j : FlatJob) (joined : String) : Job Session := do
  if j.durations.isNull then
    let seconds ← probeLength (.text joined) j.tool
    { j with
      audio := .sequence [.text joined]
      durations := .sequence [.real seconds] }.session .null
  else j.session (.text joined)

/-- Makes the video. Joined files are removed afterwards unless they are to be kept. -/
def run (j : FlatJob) (cache : Document) (keep : Bool) (o : Observers) : Job RunOutcome := do
  let j ← j.resolve
  match ← Job.ofExcept j.files with
  | [_] => (Supervisor.ofSession (← j.session .null)).job o
  | _ =>
    let joining ← Job.ofExcept (Joining.make j.audio j.tool cache keep)
    joining.withJoined fun joined => do
      (Supervisor.ofSession (← j.sessionOfJoined joined)).job o

end FlatJob

/-- Makes the video of a timeline. -/
def runTimeline (b : SessionBuilder) (image : Document) (t : Timeline) (options : SessionOptions)
    (o : Observers) : Job RunOutcome := do
  (Supervisor.ofSession (← b.build image t options)).job o

end StillVideo
