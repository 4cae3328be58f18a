import StillVideo.Placeholder
import StillVideo.Project.File
import StillVideo.Supervision
import StillVideo.Timestamp

/-!
Projects at work.

A project is read once and validated at most once; the session is kept from then on. A project
without a picture draws one in the colour of its background, in the cache directory that it was
given, or in a temporary one that is removed when a run is over, when validation is refused, or on
request.
-/

namespace StillVideo

/-- A project: its file, how it is to be run, the directory for its picture and whether the project
has created it, the session once it is validated, and the supervisor of the latest run. -/
structure Project where
  file : ProjectFile
  dryRun : Bool
  keep : Bool
  cache : Document
  created : Bool
  tool : Document
  session : Option Session
  supervisor : Option Supervisor

/-- How a project is to be run. -/
structure ProjectOptions where
  outputOverride : Document
  dryRun : Bool
  keep : Bool
  cache : Document
  tool : Document

namespace Project

/-- Reads a project. -/
def load (path : Document) (o : ProjectOptions) : Job Project := do
  let file ← ProjectFile.load path o.outputOverride
  return ⟨file, o.dryRun, o.keep, o.cache, false, o.tool, none, none⟩

/-- What the file asks of a session. -/
def options (p : Project) : SessionOptions :=
  { fitMode := .text p.file.fit
    music := .ofText? p.file.music
    musicVolume := p.file.musicVolume
    mainVolume := p.file.volume
    outputDirectory := .ofText? p.file.outputDirectory
    outputName := p.file.outputName }

end Project

/-- A project at work: the machine, the project and those who watch its runs. -/
structure Production where
  machine : Machine
  project : Project
  observers : Observers

/-- A computation of a project at work; what it did before a fault stays done. -/
abbrev ProjectJob := ExceptT Fault (StateM Production)

/-- Works on a project: the result or the fault of the work, and the project behind it. -/
def Project.work {α : Type} (p : Project) (o : Observers) (work : ProjectJob α) :
    Job (Except Fault α × Production) := fun machine =>
  let (result, production) := ExceptT.run work ⟨machine, p, o⟩
  (.ok (result, production), production.machine)

namespace ProjectJob

/-- A job as a part of the work. -/
def onMachine {α : Type} (j : Job α) : ProjectJob α := fun p =>
  let (result, machine) := j.run p.machine
  (result, { p with machine })

def project : ProjectJob Project := return (← get).project

def setProject (p : Project) : ProjectJob Unit := modify fun s => { s with project := p }

/-- Runs `cleanup` when `job` ends in a fault that satisfies `p`, and keeps the fault. -/
def onFault {α : Type} (p : Fault → Bool) (job : ProjectJob α) (cleanup : ProjectJob Unit) :
    ProjectJob α := do
  try job catch f =>
    if p f then cleanup
    throw f

/-- Removes the directory that the project has created, unless it is to be kept. -/
def cleanup : ProjectJob Unit := do
  let p ← project
  if !p.keep && p.created then
    onMachine (Job.removeTree p.cache.display)
    setProject { p with created := false }

/-- The directory for the picture, which is created if need be. -/
def requireCache : ProjectJob String := do
  let p ← project
  if p.cache.isNull then
    let directory ← onMachine (Job.makeTemporary "stillcast-run-" none)
    setProject { p with cache := .text directory, created := true }
    return directory
  else
    let directory ← onMachine (Job.ofExcept p.cache.toPath)
    onMachine do
      if !(← Job.machine).pathExists directory then Job.makeDirectories directory
    return directory

/-- The picture of the project, drawn if there is none. -/
def requireImage : ProjectJob String := do
  let p ← project
  match p.file.image with
  | some image => return image
  | none =>
    let directory ← requireCache
    onMachine do
      let path := Path.join directory ((← Job.machine).now.stamp ++ "-background.png")
      drawPlaceholder p.file.colour path (.int p.file.width) (.int p.file.height)

/-- Builds the session. A project without clips draws no picture. -/
def buildSession : ProjectJob Session := do
  let p ← project
  if p.file.timeline.clipCount = 0 then throw (.refused .noClips)
  let image ← requireImage
  let builder : SessionBuilder := ⟨p.tool, p.file.width, p.file.height⟩
  onMachine (builder.build (.text image) p.file.timeline p.options)

/-- The session, built the first time. A fault that the program explains removes what was created
for it. -/
def validate : ProjectJob Session := do
  match (← project).session with
  | some session => return session
  | none =>
    let session ← onFault Fault.isExplained buildSession cleanup
    setProject { (← project) with session := some session }
    return session

/-- What the session is about to do, with its arguments. -/
def plan : ProjectJob Document := return (← validate).planWithArguments

/-- Runs the encoder under a supervisor of its own, and cleans up however that ends. -/
def encode (session : Session) : ProjectJob String := do
  let outcome ← onMachine ((Supervisor.ofSession session).job (← get).observers)
  modify fun s => { s with
    observers := outcome.observers
    project.supervisor := some outcome.supervisor }
  cleanup
  match outcome.result with
  | .ok path => return path
  | .error f => throw f

/-- Runs the project and gives the path of the video; a dry run only shows the command. -/
def run : ProjectJob (Option String) := do
  let session ← validate
  if (← project).dryRun then
    onMachine do
      Job.printLoud "dry run: validation complete"
      Job.printLoud session.command
    cleanup
    return none
  else
    let path ← encode session
    onMachine (Job.printLoud ("mpv " ++ path))
    return some path

/-- Cancels the run of the project. -/
def cancel : ProjectJob Unit := modify fun s => { s with machine := s.machine.cancel }

end ProjectJob

end StillVideo
