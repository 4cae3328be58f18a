import StillVideo.Machine
import StillVideo.Timeline

/-!
Where the video goes: a safe file name in the directory asked for, or beside the first audio source.
-/

namespace StillVideo

/-- The extensions that a video may have. -/
def videoExtensions : List String := [".mp4", ".mkv", ".mov", ".m4v", ".webm"]

/-- Characters that no file name may contain. -/
def isUnsafeInName (c : Char) : Bool := "<>:\"/\\|?*".toList.contains c || c.toNat < 0x20

/-- A file name without white space around and without unsafe characters, which names neither a
directory nor nothing. -/
def cleanName (name : String) : String :=
  let cleaned := (trim isBlank name.toList).map fun c => if isUnsafeInName c then '_' else c
  let name := String.ofList cleaned
  if ["", ".", ".."].contains name then "output" else name

/-- The name has the extension of a video, in any case. -/
def isVideoName (name : String) : Bool := videoExtensions.contains (lowercase (Path.extension name))

/-- A clean file name with the extension of a video, the given one if it has none. -/
def safeFileName (name extension : String) : String :=
  let name := cleanName name
  if isVideoName name then name else name ++ extension

/-- A clean file name from values of a document. The name must be a text, and so must the
extension if it is needed. -/
def fileNameOf (name extension : Document) : Except Fault String :=
  match name, extension with
  | .scalar (.text name), .scalar (.text extension) => .ok (safeFileName name extension)
  | .scalar (.text name), extension =>
    if isVideoName (cleanName name) then .ok (cleanName name) else .error (.textKind extension.kind)
  | .scalar (.octets _), _ => .error .patternKind
  | d, _ => .error (.missingOperation d.kind "strip")

/-- The name of a video that has not been given one. -/
def defaultOutputName : String := "output.mp4"

/-- The file name for a value that may give one. -/
def outputName (name : Document) : Except Fault String :=
  if name.isGiven then fileNameOf name (.text ".mp4") else .ok defaultOutputName

/-- The directory of a source file, which must not be a directory itself. -/
def sourceDirectory (cwd source : String) : Except Fault String :=
  let directory := Path.dirname source
  if source.isEmpty || Path.absolute cwd directory == Path.absolute cwd source then
    refuse (.audioDirectory source)
  else .ok directory

/-- The directory of a source file from a value, which must be a text. -/
def directoryOfValue (cwd : String) : Document → Except Fault String
  | .scalar (.text source) => sourceDirectory cwd source
  | d => .error (.pathKind d.kind)

/-- The path of the video: the directory and the name that are given, or that of the first clip and
the default. -/
def outputPath (cwd : String) (timeline : Timeline) (directory name : Document) :
    Except Fault String := do
  let file ← outputName name
  match directory with
  | .scalar .null =>
    match timeline.first? with
    | none => refuse .noClips
    | some clip => return Path.join (← sourceDirectory cwd clip.source) file
  | .scalar (.text d) => return Path.join d file
  | d => .error (.pathKind d.kind)

end StillVideo
