import StillVideo.Timeline

/-!
Input slots: the position of every source among the inputs of the encoder.

Slot 0 is the picture and slot 1 the background music if there is any. The audio sources follow,
each once, in the order in which the timeline names them first. Sources are named by texts; a list
of another making may hold other scalars, which take slots and are not found by a text.
-/

namespace StillVideo

/-- The last position of `x` in a list. -/
def lastIndexOf? {α : Type} [DecidableEq α] (x : α) : List α → Option Nat
  | [] => none
  | y :: ys =>
    match lastIndexOf? x ys with
    | some i => some (i + 1)
    | none => if x = y then some 0 else none

/-- The elements of a list that are not `seen`, each once, in the order of their first
occurrence. -/
def firstOccurrences (seen : List String) : List String → List String
  | [] => []
  | x :: xs =>
    if seen.contains x then firstOccurrences seen xs else x :: firstOccurrences (x :: seen) xs

/-- The audio sources in the order of their slots. -/
structure InputSlots where
  sources : List Scalar
  hasMusic : Bool

namespace InputSlots

/-- The slot of the picture. -/
def imageSlot : Nat := 0

/-- The slot of the music. -/
def musicSlot : Nat := 1

/-- The slot of the first audio source. -/
def base (s : InputSlots) : Nat := if s.hasMusic then 2 else 1

/-- The slot of a source. -/
def slot? (s : InputSlots) (source : String) : Option Nat :=
  (lastIndexOf? (.text source) s.sources).map (· + s.base)

/-- The slot of a source that has one. -/
def slotOf (s : InputSlots) (source : String) : Except Fault Nat :=
  match s.slot? source with
  | some n => .ok n
  | none => .error (.unknownSource source)

/-- The slot of a source that a value names. -/
def slotOfValue (s : InputSlots) (source : Document) : Except Fault Nat := do
  match ← source.toKey with
  | .text name => s.slotOf name
  | key => throw (.unknownSource key.literal)

/-- The sources with their slots. -/
def assignment (s : InputSlots) : List (Scalar × Nat) := s.sources.zipIdx s.base

/-- The slots of a timeline. -/
def ofTimeline (t : Timeline) (hasMusic : Bool) : InputSlots :=
  ⟨(firstOccurrences [] (t.clips.map (·.source))).map .text, hasMusic⟩

/-- The slots of sources in a given order, the parts of a value. -/
def ofValues (sources : Document) (hasMusic : Bool) : Except Fault InputSlots := do
  return ⟨← (← sources.parts).mapM Document.toKey, hasMusic⟩

end InputSlots

end StillVideo
