import StillVideo.CommandLine.Arguments
import StillVideo.Document.Parts
import StillVideo.Path

/-!
The settings of the two commands and the options that set them.

The encoding command takes a project file, or a picture and audio files; the dashboard takes a
project file only.
-/

namespace StillVideo

/-- A value that is taken as it is. -/
def anyValue {σ : Type} (set : Document → σ → σ) : OptionEffect σ :=
  .value "str" (fun s => some (.text s)) set

/-- A value that is a whole number. -/
def wholeValue {σ : Type} (set : Document → σ → σ) : OptionEffect σ :=
  .value "int" (fun s => (readWhole? s).map .int) set

/-- A value that is a number. -/
def realValue {σ : Type} (set : Document → σ → σ) : OptionEffect σ :=
  .value "float" (fun s => (Binary64.read? s).map .real) set

/-- The option that asks for help. -/
def helpOption {σ : Type} : OptionSpec σ := ⟨some 'h', "help", .help⟩

/-! ## The encoding command -/

/-- The settings of the encoding command; nothing stands for a setting that is not given. No audio
files and no durations mean that none were given. -/
structure EncodeSettings where
  project : Document
  image : Document
  audio : List Document
  durations : List Document
  fit : Document
  music : Document
  musicVolume : Document
  volume : Document
  output : Document
  outputDirectory : Document
  dryRun : Bool
  dumpPlan : Bool
  cache : Document
  keep : Bool
  quiet : Bool

namespace EncodeSettings

/-- The settings when nothing is asked for. -/
def standard : EncodeSettings :=
  ⟨.null, .null, [], [], .text "cover", .null, .int 30, .int 100, .null, .null, false, false, .null,
    false, false⟩

/-- The options of the encoding command. -/
def options : List (OptionSpec EncodeSettings) :=
  [helpOption,
   ⟨some 'y', "yaml", anyValue fun v s => { s with project := v }⟩,
   ⟨some 'i', "image", anyValue fun v s => { s with image := v }⟩,
   ⟨some 'a', "audio", anyValue fun v s => { s with audio := s.audio ++ [v] }⟩,
   ⟨some 't', "duration", realValue fun v s => { s with durations := s.durations ++ [v] }⟩,
   ⟨some 's', "style", anyValue fun v s => { s with fit := v }⟩,
   ⟨some 'm', "music", anyValue fun v s => { s with music := v }⟩,
   ⟨none, "music-volume", wholeValue fun v s => { s with musicVolume := v }⟩,
   ⟨some 'v', "volume", wholeValue fun v s => { s with volume := v }⟩,
   ⟨some 'o', "output", anyValue fun v s => { s with output := v }⟩,
   ⟨some 'd', "output-dir", anyValue fun v s => { s with outputDirectory := v }⟩,
   ⟨some 'n', "dry-run", .flag fun s => { s with dryRun := true }⟩,
   ⟨some 'p', "dump-plan", .flag fun s => { s with dumpPlan := true }⟩,
   ⟨some 'c', "cache-dir", anyValue fun v s => { s with cache := v }⟩,
   ⟨some 'k', "keep-temp", .flag fun s => { s with keep := true }⟩,
   ⟨some 'K', "no-keep-temp", .flag fun s => { s with keep := false }⟩,
   ⟨some 'q', "quiet", .flag fun s => { s with quiet := true }⟩]

/-- The settings of a command line. There must be something to do. -/
def read (arguments : List String) : Except UsageFault EncodeSettings := do
  let (settings, extra) ← readArguments options standard arguments
  refuseExtra extra
  if settings.project.isNull && (settings.image.isNull || settings.audio.isEmpty) then
    throw .nothingToDo
  return settings

/-- The directory and the name of the output: a path gives both, but a directory that is asked for
goes first. -/
def outputParts (s : EncodeSettings) : Except Fault (Document × Document) :=
  if s.output.isNull then .ok (s.outputDirectory, .null)
  else do
    let (directory, name) := Path.split (← s.output.toPath)
    let isGiven := !directory.isEmpty && s.outputDirectory.isNull
    return (if isGiven then .text directory else s.outputDirectory, .text name)

end EncodeSettings

/-! ## The dashboard -/

/-- The settings of the dashboard. -/
structure DashboardSettings where
  project : Document
  output : Document
  cache : Document
  keep : Bool

namespace DashboardSettings

/-- The option that names the project. -/
def projectOption : OptionSpec DashboardSettings :=
  ⟨some 'y', "yaml", anyValue fun v s => { s with project := v }⟩

/-- The options of the dashboard. -/
def options : List (OptionSpec DashboardSettings) :=
  [helpOption,
   projectOption,
   ⟨some 'o', "output", anyValue fun v s => { s with output := v }⟩,
   ⟨some 'c', "cache-dir", anyValue fun v s => { s with cache := v }⟩,
   ⟨some 'k', "keep-temp", .flag fun s => { s with keep := true }⟩,
   ⟨some 'K', "no-keep-temp", .flag fun s => { s with keep := false }⟩]

/-- The settings of a command line. There must be a project. -/
def read (arguments : List String) : Except UsageFault DashboardSettings := do
  let (settings, extra) ← readArguments options ⟨.null, .null, .null, false⟩ arguments
  if settings.project.isNull then throw (.optionMissing projectOption.name)
  refuseExtra extra
  return settings

end DashboardSettings

end StillVideo
