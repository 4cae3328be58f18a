import StillVideo.Document.Parts

/-!
Clips, tracks and timelines.

A clip places a window of one audio source on the timeline. Encoding uses the window from `trimIn`
for `duration` seconds; `trimOut` is checked and kept. A track gives its clips a volume, and a
timeline is a list of tracks.
-/

namespace StillVideo

/-- A placed window of an audio source. The conditions say what has been refused: a start or a
window before zero, no length, an end before the beginning. -/
structure Clip where
  source : String
  start : Binary64
  duration : Binary64
  trimIn : Binary64
  trimOut : Binary64
  start_ok : start.lt 0 = false
  duration_ok : duration.le 0 = false
  trimIn_ok : trimIn.lt 0 = false
  trimOut_ok : trimOut.lt trimIn = false
  deriving DecidableEq

namespace Clip

/-- A clip, or the first condition that it breaks. Without an end the window ends with the clip. -/
def make (source : String) (start duration trimIn : Binary64) (trimOut : Option Binary64) :
    Except Fault Clip :=
  let trimOut := trimOut.getD (trimIn + duration)
  if h₁ : start.lt 0 = false then
    if h₂ : duration.le 0 = false then
      if h₃ : trimIn.lt 0 = false then
        if h₄ : trimOut.lt trimIn = false then
          .ok ⟨source, start, duration, trimIn, trimOut, h₁, h₂, h₃, h₄⟩
        else refuse (.clipTrimOut source)
      else refuse (.clipTrimIn source)
    else refuse (.clipDuration source)
  else refuse (.clipStart source)

/-- A clip from values of a document. The source must be there and the times must be numbers. -/
def ofValues (source start duration trimIn trimOut : Document) : Except Fault Clip := do
  if source.isNull || source.display.isEmpty then refuse .clipSource
  let start ← start.toReal
  let duration ← duration.toReal
  let trimIn ← trimIn.toReal
  let trimOut ← if trimOut.isNull then pure none else some <$> trimOut.toReal
  make source.display start duration trimIn trimOut

/-- The end of the window that is encoded. -/
def trimEnd (c : Clip) : Binary64 := c.trimIn + c.duration

/-- The end of the clip on the timeline. -/
def endTime (c : Clip) : Binary64 := c.start + c.duration

/-- Clips are equal if their sources and all their times are. -/
def eq (a b : Clip) : Bool :=
  a.source == b.source && a.start.eq b.start && a.duration.eq b.duration &&
    a.trimIn.eq b.trimIn && a.trimOut.eq b.trimOut

/-- The text of a clip. -/
def display (c : Clip) : String :=
  "Clip(" ++ quoted c.source ++ ", start=" ++ c.start.text ++ ", duration=" ++ c.duration.text ++
    ", trim_in=" ++ c.trimIn.text ++ ", trim_out=" ++ c.trimOut.text ++ ")"

/-- The source and the times of a clip. -/
def toDocument (c : Clip) : Document :=
  .sequence [.text c.source, .real c.start, .real c.duration, .real c.trimIn, .real c.trimOut]

end Clip

/-- Clips with a common volume. -/
structure Track where
  clips : List Clip
  volume : Binary64
  volume_ok : volume.lt 0 = false

namespace Track

/-- A track with a volume from a document. -/
def make (clips : List Clip) (volume : Document) : Except Fault Track := do
  let v ← volume.toReal
  if h : v.lt 0 = false then return ⟨clips, v, h⟩ else refuse .trackVolume

end Track

/-- A clip with the gain that its track gives it. -/
structure GainedClip where
  clip : Clip
  gain : Binary64

namespace GainedClip

/-- The text of a clip with its gain. -/
def display (g : GainedClip) : String :=
  "ClipWithGain(" ++ g.clip.display ++ ", gain=" ++ g.gain.text ++ ")"

end GainedClip

/-- Tracks that sound together. -/
structure Timeline where
  tracks : List Track

namespace Timeline

/-- The number of clips. -/
def clipCount (t : Timeline) : Nat :=
  t.tracks.foldl (fun count track => count + track.clips.length) 0

/-- All clips with their gains, track by track. -/
def flatten (t : Timeline) : List GainedClip :=
  t.tracks.flatMap fun track => track.clips.map fun c => ⟨c, track.volume⟩

/-- All clips, track by track. -/
def clips (t : Timeline) : List Clip := t.tracks.flatMap (·.clips)

/-- The first clip. -/
def first? (t : Timeline) : Option Clip := t.clips.head?

/-- The time at which the last clip ends, zero without clips. -/
def totalDuration (t : Timeline) : Binary64 :=
  t.clips.foldl (fun total c => if total.lt c.endTime then c.endTime else total) 0

/-- The timeline of one whole file. -/
def ofFile (audio total : Document) : Except Fault Timeline := do
  let c ← Clip.ofValues audio (.real 0) total (.real 0) total
  return ⟨[⟨[c], 1, by decide +kernel⟩]⟩

end Timeline

end StillVideo
