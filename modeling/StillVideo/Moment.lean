import StillVideo.Number.Shortest

/-!
Dates and moments.

A date is a day of the present calendar, taken back to the year one. A moment is a time of day on a
date, in microseconds, with the offset of its zone in minutes or without a zone. Each has a text of
its own and, as a part of another value, a literal.
-/

namespace StillVideo

/-- `n` with at least `width` digits. -/
def padded (width n : Nat) : String := String.ofList (padLeft width '0' (decimalDigits n))

/-- A day: year, month from 1 on, and day of the month from 1 on. -/
structure Date where
  year : Nat
  month : Nat
  day : Nat
  deriving DecidableEq

/-- Why numbers write no moment: the first of them that is out of range. -/
inductive CalendarFault
  | year (n : Nat)
  | month
  | day
  | hour
  | minute
  | second
  | offset (minutes : Int)
  deriving DecidableEq

namespace Date

/-- Every fourth year is a leap year, but of full centuries only every fourth one. -/
def isLeapYear (year : Nat) : Bool := year % 4 == 0 && (year % 100 != 0 || year % 400 == 0)

/-- The days of a month. -/
def monthLength (year month : Nat) : Nat :=
  if month == 2 then if isLeapYear year then 29 else 28
  else if [4, 6, 9, 11].contains month then 30 else 31

/-- The first number of a date that is out of range. -/
def fault? (d : Date) : Option CalendarFault :=
  if d.year = 0 then some (.year 0)
  else if d.month = 0 ∨ 12 < d.month then some .month
  else if d.day = 0 ∨ monthLength d.year d.month < d.day then some .day
  else none

/-- The days from the beginning of the calendar to a date. -/
def dayNumber (d : Date) : Nat :=
  let years := d.year - 1
  let months := (List.range (d.month - 1)).foldl (fun days m => days + monthLength d.year (m + 1)) 0
  years * 365 + years / 4 - years / 100 + years / 400 + months + d.day

/-- Year, month and day with hyphens between. -/
def display (d : Date) : String :=
  padded 4 d.year ++ "-" ++ padded 2 d.month ++ "-" ++ padded 2 d.day

/-- The numbers of a date in order. -/
def numbers (d : Date) : List Nat := [d.year, d.month, d.day]

/-- A date as a part of another value. -/
def literal (d : Date) : String :=
  "datetime.date(" ++ ", ".intercalate (d.numbers.map toString) ++ ")"

end Date

/-- A time of day on a date; `offset` counts the minutes by which the clock is ahead of universal
time. -/
structure Moment where
  date : Date
  hour : Nat
  minute : Nat
  second : Nat
  micro : Nat
  offset : Option Int
  deriving DecidableEq

/-- A span of minutes as whole days, which may be negative, and seconds. -/
def spanLiteral (minutes : Int) : String :=
  let days := Int.fdiv minutes 1440
  let seconds := Int.fmod minutes 1440 * 60
  let parts := (if days = 0 then [] else ["days=" ++ toString days]) ++
    (if seconds = 0 then [] else ["seconds=" ++ toString seconds])
  "datetime.timedelta(" ++ (if parts.isEmpty then "0" else ", ".intercalate parts) ++ ")"

/-- The wording of a calendar fault. -/
def CalendarFault.message : CalendarFault → String
  | .year n => "year " ++ toString n ++ " is out of range"
  | .month => "month must be in 1..12"
  | .day => "day is out of range for month"
  | .hour => "hour must be in 0..23"
  | .minute => "minute must be in 0..59"
  | .second => "second must be in 0..59"
  | .offset minutes =>
    "offset must be a timedelta strictly between -timedelta(hours=24) and " ++
      "timedelta(hours=24), not " ++ spanLiteral minutes ++ "."

namespace Moment

/-- An offset as hours and minutes with a sign. -/
def offsetText (minutes : Int) : String :=
  (if minutes < 0 then "-" else "+") ++ padded 2 (minutes.natAbs / 60) ++ ":" ++
    padded 2 (minutes.natAbs % 60)

/-- Date and time of day, a fraction if there is one, and the offset if there is one. -/
def display (m : Moment) : String :=
  let fraction := if m.micro = 0 then "" else "." ++ padded 6 m.micro
  m.date.display ++ " " ++ padded 2 m.hour ++ ":" ++ padded 2 m.minute ++ ":" ++
    padded 2 m.second ++ fraction ++ (m.offset.map offsetText).getD ""

/-- A zone as a part of another value. -/
def zoneLiteral (minutes : Int) : String :=
  if minutes = 0 then "datetime.timezone.utc"
  else "datetime.timezone(" ++ spanLiteral minutes ++ ")"

/-- A moment as a part of another value; seconds and microseconds that are zero are left out. -/
def literal (m : Moment) : String :=
  let clock :=
    if m.micro ≠ 0 then [m.hour, m.minute, m.second, m.micro]
    else if m.second ≠ 0 then [m.hour, m.minute, m.second]
    else [m.hour, m.minute]
  let zone := (m.offset.map fun o => ", tzinfo=" ++ zoneLiteral o).getD ""
  "datetime.datetime(" ++ ", ".intercalate ((m.date.numbers ++ clock).map toString) ++ zone ++ ")"

/-- The first number that is out of range; an offset is less than a day either way and is looked at
first. -/
def fault? (m : Moment) : Option CalendarFault :=
  match m.offset.filter fun o => 1440 ≤ o.natAbs with
  | some o => some (.offset o)
  | none =>
    match m.date.fault? with
    | some f => some f
    | none =>
      if 23 < m.hour then some .hour
      else if 59 < m.minute then some .minute
      else if 59 < m.second then some .second
      else none

/-- The microseconds from the beginning of the calendar, by the clock of universal time if the zone
is known. -/
def instant (m : Moment) : Int :=
  let minutes : Int := (m.date.dayNumber * 24 + m.hour) * 60 + m.minute
  ((minutes - m.offset.getD 0) * 60 + m.second) * 1000000 + m.micro

/-- Two moments are the same if they fall together, both with a zone or both without. -/
def same (a b : Moment) : Bool := a.offset.isSome == b.offset.isSome && a.instant == b.instant

end Moment

end StillVideo
