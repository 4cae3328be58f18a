import StillVideo.Document.Parts
import StillVideo.EncoderLine
import StillVideo.Timecode

/-!
Progress of an encoder run.

The encoder reports in blocks: lines of one field each, closed by a line with the key `progress`.
An `Accumulator` collects the fields of a block and turns them into a `Sample`; nothing is carried
over into the next block. Whatever the encoder writes, a sample comes out: a field that is absent or
not a number reads as zero, and the percentage stays between 0 and 100.
-/

namespace StillVideo

/-- How far a run has come. -/
structure Sample where
  frame : Int
  fps : Number
  time : String
  progress : Number

namespace Sample

/-- A sample that says nothing. -/
def blank : Sample := ⟨0, .real 0, "", .real 0⟩

end Sample

/-- The parts of a sample as values of any kind, such as somebody else may give them. -/
structure SampleFields where
  frame : Document
  fps : Document
  time : Document
  progress : Document

/-- The parts of a sample. -/
def Sample.fields (s : Sample) : SampleFields :=
  ⟨.int s.frame, s.fps.toDocument, .text s.time, s.progress.toDocument⟩

namespace SampleFields

/-- A sample as a text. -/
def display (s : SampleFields) : Except Fault String := do
  return "ProgressSample(frame=" ++ s.frame.display ++ ", fps=" ++ s.fps.display ++ ", time=" ++
    s.time.literal ++ ", progress=" ++ (← s.progress.fixed 2) ++ ")"

end SampleFields

/-! ## Percentages -/

/-- A part of a whole in percent, between 0 and 100; what is no number counts as all. -/
def percentOfPart (part : Binary64) : Binary64 :=
  let percent := part * 100
  if percent.lt 0 then 0 else if percent.lt 100 then percent else 100

/-- How much of a total has elapsed, in percent; nothing of a total that is not positive. -/
def percentComplete (elapsed total : Binary64) : Binary64 :=
  if total.le 0 then 0 else percentOfPart (elapsed / total)

/-- How much of a total has elapsed, for values that must be numbers; what has elapsed of nothing is
not looked at. -/
def percentOfValues (elapsed total : Document) : Except Fault Binary64 := do
  let total ← Number.ofDocument total
  if total.le (.whole 0) then return 0
  else return percentOfPart (← (← Number.ofDocument elapsed).div total)

/-! ## Blocks -/

/-- The fields of an open block, whether the encoder has announced its end, and the length that
counts as complete. -/
structure Accumulator where
  total : Binary64
  fields : List (String × String)
  finished : Bool

namespace Accumulator

/-- No field yet. -/
def start (total : Binary64) : Accumulator := ⟨total, [], false⟩

/-- The key that closes a block. -/
def closingKey : String := "progress"

/-- The value of a closing line that announces the end. -/
def endValue : String := "end"

/-- A whole number of frames; anything else counts as none. -/
def readCount (s : String) : Int :=
  match Binary64.read? s with
  | some x => max 0 (x.truncate?.getD 0)
  | none => 0

/-- The value of a field, or a default. -/
def field (a : Accumulator) (key default : String) : String := (a.fields.lookup key).getD default

/-- The sample that the fields make. -/
def sample (a : Accumulator) : Sample :=
  let time := a.field "out_time" ""
  { frame := readCount (a.field "frame" "0")
    fps := .real ((Binary64.read? (a.field "fps" "0")).getD 0)
    time
    progress := .real (percentComplete (readElapsed time) a.total) }

/-- With a field; the last value of a key counts. -/
def withField (a : Accumulator) (key value : String) : Accumulator :=
  { a with fields := (key, value) :: a.fields.filter (·.1 != key) }

/-- Takes in one field; the closing one gives a sample and begins a new block. -/
def feed (a : Accumulator) (key value : String) : Accumulator × Option Sample :=
  if key == closingKey then
    ({ a with fields := [], finished := a.finished || value == endValue }, some a.sample)
  else (a.withField key value, none)

end Accumulator

end StillVideo
