import StillVideo.Machine
import StillVideo.Timecode
import StillVideo.Timeline
import StillVideo.Yaml.Value

/-!
Project files.

A project file is a document that names a picture or a background colour, tracks of clips, and
perhaps music, volumes, a frame size and an output. Relative paths count from the directory of the
file. Of several faults the first one in the order of reading is reported: the file, its version,
what must be there, picture, fit, frame size, volume, music, tracks in their order, output.
-/

namespace StillVideo

/-- The content of a project file. Volumes and colour are kept as they were written. -/
structure ProjectFile where
  path : String
  baseDirectory : String
  image : Option String
  colour : Document
  fit : String
  width : Int
  height : Int
  volume : Document
  music : Option String
  musicVolume : Document
  timeline : Timeline
  outputDirectory : Option String
  outputName : Document

namespace ProjectFile

abbrev Fields := List (Scalar × Document)

/-- Where relative paths count from, and the home directory. -/
structure Base where
  directory : String
  home : String

/-- The path that a value gives. -/
def Base.resolve (b : Base) (d : Document) : Except Fault String := do
  let path := Path.expandHome b.home (← d.shownText)
  return if Path.isAbsolute path then path else Path.join b.directory path

/-- A field of a mapping, or a default if it is absent. -/
def fieldOr (key : String) (fields : Fields) (d : Document) : Document :=
  (Document.lookup key fields).getD d

/-- A number that may be compared; truth values are none. -/
def number? : Document → Option Number
  | .scalar (.int i) => some (.whole i)
  | .scalar (.real x) => some (.real x)
  | _ => none

/-- The value is one, as a number of any kind or as a truth value. -/
def isOne : Document → Bool
  | .scalar (.bool b) => b
  | d => (number? d).any (·.eq (.whole 1))

/-- A volume in percent, as it was written. -/
def readPercent (d : Document) (name : String) : Except Fault Document :=
  match number? d with
  | none => refuse (.percent name)
  | some x => if x.lt (.whole 0) || Number.lt (.whole 100) x then refuse (.percent name) else .ok d

/-- The picture, or the colour of the background. -/
def readPicture (b : Base) (fields : Fields) : Except Fault (Option String × Document) := do
  let image := Document.field "image" fields
  if !image.isNull then return (some (← b.resolve image), .null)
  else
    match (Document.field "background" fields).bare with
    | .mapping background =>
      let colour := Document.field "color" background
      if colour.isNull then refuse .background else return (none, colour)
    | _ => refuse .background

/-- A part of the frame size. -/
def readExtent (d : Document) : Except Fault Int :=
  match d.toWhole with
  | .ok i => .ok i
  | .error f => if f.kind = .range then .error f else refuse .resolutionKind

/-- The frame size. -/
def readResolution : Document → Except Fault (Int × Int)
  | .scalar .null => .ok (1280, 720)
  | .sequence [w, h] => do
    let width ← readExtent w
    let height ← readExtent h
    if width ≤ 0 ∨ height ≤ 0 then refuse .resolutionSign else return (width, height)
  | _ => refuse .resolutionKind

/-- The music and its volume. -/
def readMusic (b : Base) : Document → Except Fault (Option String × Document)
  | .scalar .null => .ok (none, .int 30)
  | .scalar (.text s) => do return (some (← b.resolve (.text s)), .int 30)
  | .mapping fields => do
    let file := Document.field "file" fields
    if file.isNull then refuse .music
    let path ← b.resolve file
    return (some path, ← readPercent (fieldOr "volume" fields (.int 30)) "music.volume")
  | _ => refuse .music

/-- A time as a floating number. -/
def toReal (d : Decimal) : Except Fault Binary64 :=
  match d.toBinary? with
  | some x => .ok x
  | none => .error .signallingToReal

/-- A time that may be left out. -/
def readOptionalTime (d : Document) : Except Fault (Option Decimal) :=
  if d.isNull then .ok none else some <$> readTimecode d

/-- The length of a clip: given, or from the ends of its window. -/
def readLength (source : Document) (duration : Document) (trimIn : Decimal)
    (trimOut : Option Decimal) : Except Fault Decimal :=
  if !duration.isNull then readTimecode duration
  else
    match trimOut with
    | some t => Timecode.exact (t.sub trimIn)
    | none => do refuse (.clipLength (← source.shownText))

/-- A clip of the track with a number. -/
def readClip (b : Base) (index : Nat) : Document → Except Fault Clip
  | .mapping fields => do
    let source := Document.field "source" fields
    if source.isNull then refuse (.clipSourceMissing index)
    let path ← b.resolve source
    let start ← readTimecode (fieldOr "start" fields (.int 0))
    let trimIn ← readTimecode (fieldOr "trim_in" fields (.int 0))
    let trimOut ← readOptionalTime (Document.field "trim_out" fields)
    let duration ← readLength source (Document.field "duration" fields) trimIn trimOut
    let start ← toReal start
    let duration ← toReal duration
    let trimIn ← toReal trimIn
    let trimOut ← trimOut.mapM toReal
    Clip.make path start duration trimIn trimOut
  | _ => refuse (.clipKind index)

/-- The clips of a track in order. -/
def readClips (b : Base) (index : Nat) (items : List Document) : Except Fault (List Clip) :=
  items.mapM fun d => readClip b index d.bare

/-- The track with a number. -/
def readTrack (b : Base) (index : Nat) : Document → Except Fault Track
  | .mapping fields => do
    let volume := fieldOr "volume" fields (.real 1)
    if (number? volume).isNone then refuse (.trackVolumeKind index)
    match (fieldOr "clips" fields (.sequence [])).bare with
    | .sequence items => do
      let clips ← readClips b index items
      Track.make clips volume
    | _ => refuse (.trackClipsKind index)
  | _ => refuse (.trackKind index)

/-- The tracks from a number on. -/
def readTracksFrom (b : Base) : Nat → List Document → Except Fault (List Track)
  | _, [] => .ok []
  | index, d :: rest => do
    let track ← readTrack b index d.bare
    return track :: (← readTracksFrom b (index + 1) rest)

/-- The tracks in order, counted from one. -/
def readTracks (b : Base) : Document → Except Fault Timeline
  | .sequence items => do return ⟨← readTracksFrom b 1 items⟩
  | _ => refuse .tracksKind

/-- Directory and name of the video; a path from the caller counts more than the file. -/
def readOutput (b : Base) (override d : Document) :
    Except Fault (Option String × Document) := do
  let fields ← match d with
    | .scalar .null => pure []
    | .mapping fields => pure fields
    | _ => refuse .outputKind
  let given := Document.field "dir" fields
  let directory ← if given.isNull then pure none else some <$> b.resolve given
  if override.isNull then return (directory, Document.field "file" fields)
  else
    let path ← override.toPath
    let above := Path.dirname path
    return (if above.isEmpty then directory else some above, .text (Path.basename path))

/-- What must be there before anything is read. -/
def checkRequired (fields : Fields) : Except Fault Unit := do
  if !isOne (Document.field "stillcast" fields) then refuse .projectVersion
  if (Document.field "tracks" fields).isNull then refuse .tracksMissing
  if (Document.field "image" fields).isNull && (Document.field "background" fields).isNull then
    refuse .pictureMissing

/-- The content of a project file from its document. -/
def ofDocument (path : String) (b : Base) (override : Document) :
    Document → Except Fault ProjectFile
  | .mapping fields => do
    checkRequired fields
    let (image, colour) ← readPicture b fields
    let fit ← (fieldOr "fit" fields (.text "cover")).shownText
    let (width, height) ← readResolution (Document.field "resolution" fields).bare
    let volume ← readPercent (fieldOr "volume" fields (.int 100)) "volume"
    let (music, musicVolume) ← readMusic b (Document.field "music" fields).bare
    let timeline ← readTracks b (Document.field "tracks" fields).bare
    let (outputDirectory, outputName) ← readOutput b override (Document.field "output" fields).bare
    return { path, baseDirectory := b.directory, image, colour,
             fit, width, height, volume, music, musicVolume, timeline, outputDirectory, outputName }
  | _ => refuse .documentKind

/-- All ends of line as line feeds. -/
def lineFeeds : List Char → List Char
  | [] => []
  | '\r' :: '\n' :: rest => '\n' :: lineFeeds rest
  | '\r' :: rest => '\n' :: lineFeeds rest
  | c :: rest => c :: lineFeeds rest

/-- The document that a file holds. -/
def readContent (path : String) : Content → Except Fault Document
  | .data d => .ok d
  | .media | .unreadable => .error (.host (.value "'utf-8' codec can't decode bytes"))
  | .text s =>
    match Yaml.read (String.ofList (lineFeeds s.toList)) with
    | .ok d => .ok d
    | .error .malformed => refuse (.documentText path)
    | .error (.conversion f) => .error f

/-- The largest size of a project file in bytes. -/
def sizeLimit : Int := 10000000

/-- Reads a project file. -/
def load (file override : Document) : Job ProjectFile := do
  let path ← Job.ofExcept file.toPath
  let m ← Job.machine
  let b : Base := ⟨Path.dirname (Path.absolute m.cwd path), m.home⟩
  Job.requirePath path
  if sizeLimit < m.size path then Job.refuse .documentSize
  let content ← Job.ofExcept (m.openFile path)
  let d ← Job.ofExcept (readContent path content)
  Job.ofExcept (ofDocument path b override d.bare)

end ProjectFile

end StillVideo
