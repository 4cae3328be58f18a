import StillVideo.CommandLine.Encode

/-!
The encoding command on a real machine.

The machine is read once: the working directory, the environment, and the files that the arguments
name. The command runs on what was read, and what it has done is carried out afterwards. Programs
are not started from here, so the command plans and shows, and a run ends with the report that the
encoder could not be started.
-/

namespace StillVideo.CommandShell

/-- The machine with a file or a directory that exists. -/
def readPath (m : Machine) (path : String) : IO Machine := do
  let found := (← IO.currentDir) / path
  if path.isEmpty || !(← found.pathExists) then return m
  else if ← found.isDir then return m.withDirectory path
  else return m.withFile path .media

/-- The machine with the text of a file if there is one. -/
def readText (m : Machine) (path : String) : IO Machine := do
  let found := (← IO.currentDir) / path
  if path.isEmpty || !(← found.pathExists) || (← found.isDir) then readPath m path
  else return m.withFile path (.text (← IO.FS.readFile found))

/-- The first program of a name on the search path. -/
def findOnPath (name : String) : IO (Option String) := do
  let directories := ((← IO.getEnv "PATH").getD "").splitOn ":"
  let candidates := directories.map fun d => Path.join d name
  candidates.findM? fun path => do ((← IO.currentDir) / path).pathExists

/-- The machine as far as no file is concerned. -/
def readMachine : IO Machine := do
  let cwd := (← IO.currentDir).toString
  let home := (← IO.getEnv "HOME").getD "/"
  let named ← IO.getEnv encoderVariable
  return {
    cwd
    home
    environment := named.toList.map (encoderVariable, ·)
    now := ⟨1970, 1, 1, 0, 0, 0⟩
    clock := 0
    files := []
    directories := ["/tmp"]
    sizes := []
    onPath := ← findOnPath "ffmpeg"
    bundled := .ok none
    banners := []
    joiner := ⟨127, false, 0⟩
    encoder := .missing "programs are not started from here"
    token := .fresh
    quiet := false
    record := [] }

/-- The paths among values. -/
def paths (ds : List Document) : List String := ds.filterMap fun d => d.toPath.toOption

/-- The machine with all files that the settings name. -/
def readFiles (s : EncodeSettings) : IO Machine := do
  let m ← readMachine
  let m ← (paths (s.audio ++ [s.cache]) ++ m.environment.map (·.2)).foldlM readPath m
  (paths [s.project]).foldlM readText m

/-- Carries out what a job has done. -/
def carryOut : Event → IO Unit
  | .printed text => IO.print text
  | .madeDirectories path | .madeTemporary path => IO.FS.createDirAll path
  | .removedTree path => IO.FS.removeDirAll path
  | .wrote path text => IO.FS.writeFile path text
  | _ => return

/-- Shows a plan, one parameter to a line. -/
def showPlan : Document → IO Unit
  | .mapping entries => entries.forM fun e => IO.println (e.1.display ++ ": " ++ e.2.literal)
  | d => IO.println d.display

/-- Runs the command and gives its exit code. -/
def run (s : EncodeSettings) : IO UInt32 := do
  let (result, m) := (EncodeCommand.run s).run (← readFiles s)
  m.record.reverse.forM carryOut
  match result with
  | .ok ending =>
    ending.plan.forM showPlan
    IO.eprint ending.complaint
    return UInt32.ofNat ending.exitCode.toNat
  | .error f =>
    IO.eprintln f.message
    return 1

end StillVideo.CommandShell

/-- The encoding command. -/
def main (arguments : List String) : IO UInt32 := do
  match StillVideo.EncodeSettings.read arguments with
  | .ok settings => StillVideo.CommandShell.run settings
  | .error f =>
    if f ≠ .help then IO.eprintln ("stillcast: error: " ++ f.message)
    return UInt32.ofNat f.exitCode.toNat
