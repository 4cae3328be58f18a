import StillVideo.Dashboard.Clock
import StillVideo.Progress

/-!
The panels of the dashboard: pieces of coloured text.

One panel shows how the run goes, the other one what is known of the project. Characters on which a
terminal would act are left out of what is shown, and so is a piece without text.
-/

namespace StillVideo.Dashboard

/-- What a colour is for. -/
inductive Style
  | label | value | accent | good | bad
  deriving DecidableEq, Repr

/-- The colour of a style. -/
def Style.colour : Style → String
  | .label => "#4C566A"
  | .value => "#D8DEE9"
  | .accent => "#88C0D0"
  | .good => "#A3BE8C"
  | .bad => "#BF616A"

/-- How far the dashboard has come with its project. -/
inductive Phase
  | starting | encoding | done | failed | cancelled
  deriving DecidableEq, Repr

namespace Phase

/-- The name of a phase. -/
def name : Phase → String
  | starting => "starting"
  | encoding => "encoding"
  | done => "done"
  | failed => "failed"
  | cancelled => "cancelled"

/-- The style in which a phase is shown. -/
def style : Phase → Style
  | starting => .value
  | encoding => .accent
  | done => .good
  | failed | cancelled => .bad

/-- The phase that a value names; what can be no name at all is another fault than an unknown name.
-/
def ofValue (d : Document) : Except Fault Phase := do
  let key ← d.toKey
  match [starting, encoding, done, failed, cancelled].find? (key == .text ·.name) with
  | some p => return p
  | none => throw (.unknownState key.display)

end Phase

/-- A piece of text in a style. -/
structure Piece where
  text : String
  style : Style
  deriving DecidableEq, Repr

/-- A terminal acts on these characters: bell, backspace, vertical tab, form feed and carriage
return. -/
def isActedOn (c : Char) : Bool := ['\x07', '\x08', '\x0b', '\x0c', '\r'].contains c

/-- A text as it is shown. -/
def shownText (s : String) : String := String.ofList (s.toList.filter (!isActedOn ·))

/-- A piece as it is shown. -/
def Piece.shown (p : Piece) : Piece := { p with text := shownText p.text }

/-- A panel from top to bottom. -/
abbrev Panel := List Piece

/-- A label and its value on a line of their own. -/
def fieldPieces (label value : String) (style : Style) : Panel :=
  [⟨label ++ ": ", .label⟩, ⟨value ++ "\n", style⟩]

/-- The first value that is given, as a text; else the default. -/
def firstGiven (default : String) : List Document → String
  | [] => default
  | d :: ds => if d.isGiven then d.display else firstGiven default ds

/-- What a sample tells besides the percentage. -/
def sampleText (s : SampleFields) : Except Fault String := do
  return "frame " ++ s.frame.display ++ "  " ++ (← s.fps.fixed 1) ++ " fps  " ++ s.time.display

/-- The panel of a run from its phase, the time since it began, and the latest sample. -/
def runPanel (phase : Phase) (elapsed : Document) (sample : Option SampleFields) :
    Except Fault Panel := do
  let percent := (sample.map (·.progress)).getD (.real 0)
  let remaining ← if phase = .encoding then estimateOfValues elapsed percent else pure none
  let clock ← clockOfValue elapsed
  let left ← remainingText remaining
  let bar ← barOfValues percent (.int defaultBarWidth)
  let percentText := String.ofList (padLeft 5 ' ' (← percent.fixed 1).toList)
  let details ← (sample.map sampleText).getD (.ok "")
  let pieces := fieldPieces "Status" phase.name phase.style ++ fieldPieces "Elapsed" clock .value ++
    fieldPieces "Remaining" left .value ++
    [⟨bar, .accent⟩, ⟨" " ++ percentText ++ "%\n", .value⟩, ⟨details, .label⟩]
  return (pieces.filter fun p => !p.text.isEmpty).map Piece.shown

/-- The panel of a project from its path, the output that was asked for, and what is known of its
session by name. -/
def projectPanel (path outputOverride : Document) (info : List (Scalar × Document)) :
    Except Fault Panel := do
  let length := Document.field "length" info
  let lengthText ← if length.isNull then pure "-" else clockOfValue length
  let clips := ((Document.lookup "clips" info).map (·.display)).getD "-"
  let pieces := fieldPieces "Project" path.display .value ++
    fieldPieces "Output" (firstGiven "-" [Document.field "output" info, outputOverride]) .value ++
    fieldPieces "Clips" clips .value ++
    fieldPieces "Length" lengthText .value ++
    fieldPieces "Fit" (firstGiven "-" [Document.field "fit" info]) .value ++
    fieldPieces "Music" (firstGiven "none" [Document.field "music" info]) .value
  return pieces.map Piece.shown

end StillVideo.Dashboard
