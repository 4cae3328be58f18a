import StillVideo.Machine

/-!
Stamps of the local time for the names of temporary files.
-/

namespace StillVideo.LocalTime

/-- The abbreviated name of a month. -/
def monthName (n : Nat) : String :=
  ["jan", "feb", "mar", "apr", "may", "jun", "jul", "aug", "sep", "oct", "nov", "dec"].getD
    (n - 1) ""

/-- `n` in two digits. -/
def twoDigits (n : Nat) : String := String.ofList (padLeft 2 '0' (decimalDigits n))

/-- A letter that counts from `A` and begins again after `Z`. -/
def letter (n : Nat) : String := String.singleton (Char.ofNat (65 + n % 26))

/-- The date, the hour as a letter, the minute, and the second as a letter. -/
def stamp (t : LocalTime) : String :=
  twoDigits (t.year % 100) ++ monthName t.month ++ twoDigits t.day ++ letter t.hour ++
    twoDigits t.minute ++ letter t.second

end StillVideo.LocalTime
