import StillVideo.Number

/-!
Times as people and encoders write them.

An encoder reports elapsed time as seconds or as hours, minutes and seconds; `readElapsed` never
fails, a part that is no numeral counts as zero. A project gives exact times: `readTimecode` keeps
every digit of a decimal, and refuses what is no time.
-/

namespace StillVideo

/-- The floating number that a text writes, zero if it writes none. -/
def realOrZero (cs : List Char) : Binary64 :=
  (Binary64.read? (String.ofList cs)).getD 0

/-- Seconds from a text of bare seconds or of hours, minutes and seconds between colons; any other
shape gives zero. -/
def readElapsed (s : String) : Binary64 :=
  match splitFields ':' (trim isBlank s.toList) with
  | [seconds] => realOrZero seconds
  | [hours, minutes, seconds] =>
    realOrZero hours * 3600 + realOrZero minutes * 60 + realOrZero seconds
  | _ => 0

namespace Timecode

/-- One part of a timecode. -/
def readPart (raw : String) (cs : List Char) : Except Fault Decimal :=
  match Decimal.read? (String.ofList cs) with
  | some d => .ok d
  | none => refuse (.timecode raw)

/-- A product or sum of parts. -/
def exact (r : Except DecimalFault Decimal) : Except Fault Decimal :=
  match r with
  | .ok d => .ok d
  | .error f => .error (.decimal f)

/-- Hours, minutes and seconds in seconds. -/
def seconds (h m s : Decimal) : Except Fault Decimal := do
  let fromHours ← exact (h.mul (.ofInt 3600))
  let fromMinutes ← exact (m.mul (.ofInt 60))
  exact ((← exact (fromHours.add fromMinutes)).add s)

/-- A timecode text: a decimal, or up to three decimals between colons. The parts are read from the
last to the first. -/
def readText (raw : String) : Except Fault Decimal :=
  match splitFields ':' (trim isBlank raw.toList) with
  | [part] => readPart raw part
  | [minutes, seconds] => do
    let s ← readPart raw seconds
    let m ← readPart raw minutes
    Timecode.seconds (.ofInt 0) m s
  | [hours, minutes, seconds] => do
    let s ← readPart raw seconds
    let m ← readPart raw minutes
    let h ← readPart raw hours
    Timecode.seconds h m s
  | _ => refuse (.timecode raw)

end Timecode

/-- The exact time that a value gives: a number, or a text of up to three parts. -/
def readTimecode : Document → Except Fault Decimal
  | .scalar .null => refuse .timeMissing
  | .scalar (.int i) => .ok (.ofInt i)
  | .scalar (.real x) =>
    match Decimal.read? x.text with
    | some d => .ok d
    | none => refuse .timeKind
  | .scalar (.text s) => Timecode.readText s
  | _ => refuse .timeKind

end StillVideo
