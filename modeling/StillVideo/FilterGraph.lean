import StillVideo.InputSlots
import StillVideo.Gain

/-!
The audio filter graph of a session.

Each clip has a chain that cuts its window out of the source, restarts the timestamps, applies the
gain of the track and delays the sound to its place. One chain mixes all clips and applies the
master gain. With music, one more chain loops it and a last one mixes it under the clips. A chain
names the labels that it reads and the one that it writes.
-/

namespace StillVideo

/-- A chain of filters. Numbers are kept as they are written. -/
inductive Chain
  | clip (index slot : Nat) (trimStart trimEnd gain : String) (delay : Int)
  | mix (count : Nat) (gain : String)
  | musicLoop (gain : String)
  | musicMix
  deriving DecidableEq, Repr

namespace Chain

/-- The label of the mixed clips. -/
def mixLabel : String := "aout"

/-- The label of the looped music. -/
def musicLabel : String := "bgmusic"

/-- The label of the clips mixed with music. -/
def finalLabel : String := "final"

/-- The label of a clip. -/
def clipLabel (index : Nat) : String := "a" ++ toString index

/-- A label in brackets. -/
def bracketed (label : String) : String := "[" ++ label ++ "]"

/-- The label of the audio of an input. -/
def inputLabel (slot : Nat) : String := toString slot ++ ":a"

/-- The labels that a chain reads. -/
def reads : Chain → List String
  | .clip _ slot .. => [inputLabel slot]
  | .mix count _ => (List.range count).map clipLabel
  | .musicLoop _ => [inputLabel InputSlots.musicSlot]
  | .musicMix => [mixLabel, musicLabel]

/-- The label that a chain writes. -/
def writes : Chain → String
  | .clip index .. => clipLabel index
  | .mix .. => mixLabel
  | .musicLoop _ => musicLabel
  | .musicMix => finalLabel

/-- The filters of a chain without its labels. -/
def filters : Chain → String
  | .clip _ _ trimStart trimEnd gain delay =>
    "atrim=start=" ++ trimStart ++ ":end=" ++ trimEnd ++ ",asetpts=PTS-STARTPTS,volume=" ++ gain ++
      ",adelay=" ++ toString delay ++ "|" ++ toString delay
  | .mix count gain => "amix=inputs=" ++ toString count ++ ":duration=longest,volume=" ++ gain
  | .musicLoop gain => "aloop=loop=-1:size=2e+09,volume=" ++ gain
  | .musicMix => "amix=inputs=2:duration=first:dropout_transition=2"

/-- The text of a chain. -/
def text (c : Chain) : String :=
  String.join (c.reads.map bracketed) ++ c.filters ++ bracketed c.writes

/-- The chain of the clip at a position. The delay is given in whole milliseconds. -/
def ofClip (index slot : Nat) (g : GainedClip) : Except Fault Chain := do
  let delay ← wholeOfReal (g.clip.start * 1000)
  return .clip index slot (graphNumber g.clip.trimIn) (graphNumber g.clip.trimEnd)
    (graphNumber g.gain) delay

end Chain

/-- Chains and the label that carries the result. -/
structure FilterGraph where
  chains : List Chain
  label : String

namespace FilterGraph

/-- The text of a graph. -/
def text (g : FilterGraph) : String := ";".intercalate (g.chains.map Chain.text)

/-- The result as the encoder is asked for it. -/
def target (g : FilterGraph) : String := Chain.bracketed g.label

/-- The chains of clips from a position on. -/
def clipChains (slots : InputSlots) : Nat → List GainedClip → Except Fault (List Chain)
  | _, [] => .ok []
  | index, g :: rest => do
    let slot ← slots.slotOf g.clip.source
    let chain ← Chain.ofClip index slot g
    return chain :: (← clipChains slots (index + 1) rest)

/-- The graph of placed clips. Without clips it is empty. The master gain applies behind the mix of
the clips, and the music gain, one unless given, applies if a slot is kept for music. -/
def compile (clips : List GainedClip) (slots : InputSlots) (masterGain musicGain : Document) :
    Except Fault FilterGraph := do
  if clips.isEmpty then return ⟨[], Chain.mixLabel⟩
  let chains ← clipChains slots 0 clips
  let mix := Chain.mix clips.length (graphNumber (← masterGain.toReal))
  if slots.hasMusic then
    let gain ← if musicGain.isNull then pure 1 else musicGain.toReal
    return ⟨chains ++ [mix, .musicLoop (graphNumber gain), .musicMix], Chain.finalLabel⟩
  else return ⟨chains ++ [mix], Chain.mixLabel⟩

end FilterGraph

end StillVideo
