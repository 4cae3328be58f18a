import StillVideo.EncoderTool
import StillVideo.Timestamp

/-!
Joining several audio files into one without loss.

The list of files and the joined file live in a private directory, which is removed when the work
with the joined file is over, however it ends, unless it is to be kept.
-/

namespace StillVideo

/-- A single quote inside a quoted name: the quote is closed, an escaped one follows, and a new one
is opened. -/
def listedChar (c : Char) : List Char :=
  if c == '\'' then ['\'', '\\', '\'', '\''] else [c]

/-- The line that names a file. -/
def listedFile (path : String) : String :=
  "file '" ++ String.ofList (path.toList.flatMap listedChar) ++ "'"

/-- The list that names the files in order. -/
def joinList (cwd : String) (audio : List String) : String :=
  "\n".intercalate (audio.map fun a => listedFile (Path.absolute cwd a)) ++ "\n"

/-- The extension of a joined file: that of the first file, or a default. -/
def joinedExtension (audio : List String) : String :=
  let extension := Path.extension (audio.headD "")
  if extension.isEmpty then ".mp3" else extension

/-- The name of a joined file. -/
def joinedName (audio : List String) : String := "temp_combined" ++ joinedExtension audio

/-- A request to join files. -/
structure Joining where
  audio : List Document
  tool : Document
  cache : Document
  keep : Bool

/-- The private directory of a joining, its list and its result. -/
structure JoinPlace where
  directory : String
  list : String
  result : String

namespace Joining

/-- A request that names at least one file. -/
def make (audio tool cache : Document) (keep : Bool) : Except Fault Joining := do
  let files ← audio.countedParts
  if files.isEmpty then refuse .noAudioFiles else return ⟨files, tool, cache, keep⟩

/-- The path of a file that must exist. -/
def requireFile (d : Document) : Job String := do
  let path ← Job.ofExcept d.toPath
  Job.requirePath path
  return path

/-- The cache directory, which is created if it is asked for and missing. -/
def requireCache (d : Document) : Job (Option String) := do
  if d.isNull then return none
  let path ← Job.ofExcept d.toPath
  if !(← Job.machine).pathExists path then Job.makeDirectories path
  return some path

/-- Checks the files, finds the encoder and writes the list into a private directory. -/
def prepare (j : Joining) : Job (Document × JoinPlace) := do
  let audio ← j.audio.mapM requireFile
  let tool ← requireEncoder j.tool
  let cache ← requireCache j.cache
  let stamp := (← Job.machine).now.stamp
  let directory ← Job.makeTemporary ("stillcast-concat-" ++ stamp ++ "-") cache
  let list := Path.join directory "concat_list.txt"
  Job.writeText list (joinList (← Job.machine).cwd audio)
  return (tool, ⟨directory, list, Path.join directory (joinedName audio)⟩)

/-- Removes the private directory unless it is to be kept. -/
def cleanup (j : Joining) (p : JoinPlace) : Job Unit := do
  if !j.keep then Job.removeTree p.directory

/-- Joins the files; a failure removes the private directory. -/
def join (j : Joining) (tool : Document) (p : JoinPlace) : Job Unit :=
  Job.onFault (fun _ => true)
    (do
      let options := ["-y", "-f", "concat", "-safe", "0", "-i", p.list, "-c", "copy", p.result]
      let code ← runCommand (tool :: options.map .text)
      if code ≠ 0 then Job.refuse (.concatenation code)
      Job.requirePath p.result)
    (j.cleanup p)

/-- Works with the joined file and removes it afterwards. -/
def withJoined {α : Type} (j : Joining) (work : String → Job α) : Job α := do
  let (tool, p) ← j.prepare
  j.join tool p
  Job.always (work p.result) (j.cleanup p)

end Joining

end StillVideo
