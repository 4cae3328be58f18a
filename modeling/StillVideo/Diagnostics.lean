import StillVideo.Document.Parts

/-!
Lines that are kept to explain a run.

Lines are values, most often texts, and so are the names of the pipes that they come from. The last
lines are kept, each is heard by a listener, and nothing here decides how a run goes. A listener
that fails is not asked again; its failure is kept as a line of its own, directly behind the line
on which it failed.
-/

namespace StillVideo

-- Powers are those of the core library, whatever else is imported.
attribute [local instance (2000)] instPowNat

/-- A line that was recorded, with the name of the pipe that it came from. -/
abbrev Heard := Document × Document

/-- A listener: from all lines that it has heard, the latest one last, it says whether it fails on
the latest. -/
abbrev Listener := List Heard → Option String

/-- Lines kept, at most `keep` of them if that is given; the listener as long as it works, what it
has heard, and whether lines are shown as they come. -/
structure Diagnostics where
  keep : Option Nat
  echo : Bool
  listener : Option Listener
  lines : List Document
  heard : List Heard

namespace Diagnostics

/-- How many lines are kept unless told otherwise. -/
def defaultKeep : Nat := 200

/-- How many lines a report takes unless told otherwise. -/
def defaultTail : Int := 20

/-- No line yet. -/
def start (keep : Option Nat) (echo : Bool) (listener : Option Listener) : Diagnostics :=
  ⟨keep, echo, listener, [], []⟩

/-- The default: shows lines and has no listener. -/
def standard : Diagnostics := start (some defaultKeep) true none

/-- The last lines, as many as are kept. -/
def kept (keep : Option Nat) (lines : List Document) : List Document :=
  match keep with
  | some n => lastOf n lines
  | none => lines

/-- With one more line. -/
def push (d : Diagnostics) (line : Document) : Diagnostics :=
  { d with lines := kept d.keep (d.lines ++ [line]) }

/-- The line that explains why a listener is not asked again. -/
def listenerNote (reason : String) : String := "diagnostics listener failed: " ++ reason

/-- Records a line: it is kept, and then the listener hears it. -/
def record (d : Diagnostics) (pipe line : Document) : Diagnostics :=
  let d := d.push line
  match d.listener with
  | none => d
  | some listener =>
    let d := { d with heard := d.heard ++ [(pipe, line)] }
    match listener d.heard with
    | none => d
    | some reason => { d with listener := none }.push (.text (listenerNote reason))

/-- What is shown for a line. -/
def shown (line : Document) : String := "FFmpeg: " ++ line.display

/-- The last `count` lines; for a count that is not positive, all lines but the first `-count`. -/
def tail (d : Diagnostics) (count : Int) : List Document :=
  if 0 < count then lastOf count.toNat d.lines else d.lines.drop (-count).toNat

/-- How many lines are kept for a value: all of them for nothing, else a count that fits into a
machine word and is not negative. -/
def keepOfValue : Document → Except Fault (Option Nat)
  | .scalar .null => .ok none
  | .scalar (.bool b) => .ok (some (if b then 1 else 0))
  | .scalar (.int i) =>
    if i < -(2 ^ (63 : Nat)) ∨ 2 ^ (63 : Nat) ≤ i then .error .longRange
    else if i < 0 then .error .negativeLength
    else .ok (some i.toNat)
  | d => .error (.wholeKind d.kind)

/-- How many lines are asked for by a value, which must be a whole number or a truth value. -/
def countOfValue : Document → Except Fault Int
  | .scalar (.bool b) => .ok (if b then 1 else 0)
  | .scalar (.int i) => .ok i
  | d => .error (.operandKind d.kind)

end Diagnostics

end StillVideo
