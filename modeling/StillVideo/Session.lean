import StillVideo.EncoderTool
import StillVideo.FilterGraph
import StillVideo.OutputPath

/-!
Encoder sessions: one complete invocation of the encoder for a picture and a timeline.

Everything is checked before the encoder is looked up, so a bad request starts no process. The
inputs are the picture, the music if there is any, and the audio sources in the order of their
slots; the arguments name them in this order.
-/

namespace StillVideo

/-- How the picture fills the frame. -/
inductive FitMode
  | cover | contain | tiled | center
  deriving DecidableEq, Repr

namespace FitMode

/-- The name of a fit mode. -/
def name : FitMode → String
  | .cover => "cover"
  | .contain => "contain"
  | .tiled => "repeat"
  | .center => "center"

/-- The fit mode of a name. -/
def ofName? (s : String) : Option FitMode :=
  [cover, contain, tiled, center].find? (·.name == s)

/-- The fit mode that a value names, in any case and with white space around; else the default. -/
def ofValue (d : Document) : FitMode :=
  if d.isNull then .cover
  else (ofName? (lowercase (strip d.display))).getD .cover

/-- The video filter that fits a picture into a frame of a size. -/
def filter (mode : FitMode) (size : String) : String :=
  match mode with
  | .contain | .center =>
    "scale=" ++ size ++ ":force_original_aspect_ratio=decrease,pad=" ++ size ++
      ":(ow-iw)/2:(oh-ih)/2"
  | .tiled => "tile=2x2"
  | .cover => "scale=" ++ size ++ ":force_original_aspect_ratio=increase,crop=" ++ size

end FitMode

/-- What a session is about to do, in the form that is shown. -/
structure Plan where
  inputs : List Document
  filterText : String
  label : Option String
  videoFilter : Option String
  fitMode : FitMode
  hasMusic : Bool
  totalDuration : Binary64
  output : Option String

namespace Plan

/-- The plan of a session that has not been built. -/
def blank : Plan := ⟨[], "", none, none, .cover, false, 0, none⟩

/-- The parameters by name. -/
def entries (p : Plan) : List (Scalar × Document) :=
  [(.text "inputs", .sequence p.inputs),
   (.text "filter_complex", .text p.filterText),
   (.text "output_label", .ofText? p.label),
   (.text "video_filter", .ofText? p.videoFilter),
   (.text "fit_mode", .text p.fitMode.name),
   (.text "background_music", .bool p.hasMusic),
   (.text "total_duration", .real p.totalDuration),
   (.text "output", .ofText? p.output)]

end Plan

/-- A complete invocation of the encoder. -/
structure Session where
  tool : Document
  image : Document
  timeline : Timeline
  fitMode : FitMode
  music : Document
  mainGain : Binary64
  musicGain : Option Binary64
  output : String
  slots : InputSlots
  graph : FilterGraph
  videoFilter : String

namespace Session

/-- The session has music. -/
def hasMusic (s : Session) : Bool := !s.music.isNull

/-- The input files in the order of their slots. -/
def inputs (s : Session) : List Document :=
  s.image :: (if s.hasMusic then [s.music] else []) ++ s.slots.sources.map .scalar

/-- The length of the video. -/
def totalDuration (s : Session) : Binary64 := s.timeline.totalDuration

/-- The arguments that name the inputs; the picture is shown again and again. -/
def inputArguments (inputs : List Document) : List Document :=
  match inputs with
  | [] => []
  | image :: rest =>
    [.text "-loop", .text "1", .text "-i", image] ++ rest.flatMap ([.text "-i", ·])

/-- The arguments behind the filter graph and the video filter. -/
def codecArguments : List String :=
  ["-c:v", "libx264", "-tune", "stillimage", "-c:a", "aac", "-b:a", "192k", "-pix_fmt", "yuv420p",
   "-shortest", "-progress", "pipe:1"]

/-- The arguments behind the inputs. -/
def graphArguments (s : Session) : List String :=
  ["-filter_complex", s.graph.text, "-vf", s.videoFilter, "-map", "0:v", "-map", s.graph.target] ++
    codecArguments ++ [s.output]

/-- The whole command. -/
def args (s : Session) : List Document :=
  [s.tool, .text "-y"] ++ inputArguments s.inputs ++ s.graphArguments.map .text

/-- The command as the shell takes it. -/
def command (s : Session) : String := commandOf s.args

/-- What the session is about to do. -/
def plan (s : Session) : Plan where
  inputs := s.inputs
  filterText := s.graph.text
  label := some s.graph.label
  videoFilter := some s.videoFilter
  fitMode := s.fitMode
  hasMusic := s.hasMusic
  totalDuration := s.totalDuration
  output := some s.output

/-- The parameters of the session and its arguments. -/
def planWithArguments (s : Session) : Document :=
  .mapping (s.plan.entries ++ [(.text "args", .sequence s.args)])

end Session

/-- What can be asked of a session besides picture and sound. -/
structure SessionOptions where
  fitMode : Document
  music : Document
  musicVolume : Document
  mainVolume : Document
  outputDirectory : Document
  outputName : Document

namespace SessionOptions

/-- Nothing asked for. -/
def standard : SessionOptions := ⟨.text "cover", .null, .int 30, .int 100, .null, .null⟩

end SessionOptions

/-- The encoder, if it is known already, and the size of the frame. -/
structure SessionBuilder where
  tool : Document
  width : Int
  height : Int

namespace SessionBuilder

/-- A builder for a frame size from a document. -/
def make (tool width height : Document) : Except Fault SessionBuilder := do
  return ⟨tool, ← width.toWhole, ← height.toWhole⟩

/-- The frame size as filters write it. -/
def size (b : SessionBuilder) : String := toString b.width ++ ":" ++ toString b.height

/-- The frame size has not more digits than can be shown. -/
def checkSize (b : SessionBuilder) : Except Fault Unit :=
  if isOverlong b.width || isOverlong b.height then .error .digitsShown else .ok ()

/-- There is a picture unless its value is nothing or an empty text. -/
def isPicture : Document → Bool
  | .scalar .null => false
  | .scalar (.text s) => !s.isEmpty
  | _ => true

/-- The session without an encoder, as a function of it; all checks are made here. -/
def prepare (b : SessionBuilder) (cwd : String) (image : Document) (timeline : Timeline)
    (o : SessionOptions) : Except Fault (Document → Session) := do
  let hasMusic := !o.music.isNull
  if !isPicture image then refuse .image
  if timeline.clipCount = 0 then refuse .noClips
  let mainGain ← percentToGain o.mainVolume "main audio volume"
  let musicGain ← if hasMusic then
      some <$> percentToGain o.musicVolume "background music volume"
    else pure none
  let output ← outputPath cwd timeline o.outputDirectory o.outputName
  let slots := InputSlots.ofTimeline timeline hasMusic
  let graph ← FilterGraph.compile timeline.flatten slots (.real mainGain)
    ((musicGain.map Document.real).getD .null)
  let fitMode := FitMode.ofValue o.fitMode
  return fun tool =>
    { tool, image, timeline, fitMode, music := o.music, mainGain, musicGain, output, slots, graph,
      videoFilter := fitMode.filter b.size }

/-- Builds a session; the encoder is looked up when all is checked, and the frame size is written
then. -/
def build (b : SessionBuilder) (image : Document) (timeline : Timeline)
    (o : SessionOptions) : Job Session := do
  let session ← Job.ofExcept (b.prepare (← Job.machine).cwd image timeline o)
  let tool ← requireEncoder b.tool
  Job.ofExcept b.checkSize
  return session tool

/-- Builds a session for one whole audio file. -/
def buildFlat (b : SessionBuilder) (image audio total : Document)
    (o : SessionOptions) : Job Session := do
  b.build image (← Job.ofExcept (Timeline.ofFile audio total)) o

end SessionBuilder

end StillVideo
