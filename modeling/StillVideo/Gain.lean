import StillVideo.Number

/-!
Gains and the text of numbers in filter graphs.
-/

namespace StillVideo

/-- `cs` without `.0` at its end. -/
def dropPointZero (cs : List Char) : List Char :=
  match cs.reverse with
  | '0' :: '.' :: rest => rest.reverse
  | _ => cs

/-- A number in a filter graph: the shortest text, without `.0` at the end and without the sign of
a zero. -/
def graphNumber (x : Binary64) : String :=
  let cs := dropPointZero x.text.toList
  if cs == ['-', '0'] then "0" else String.ofList cs

/-- The linear gain of a volume in percent. `name` is the option that gave it. -/
def percentToGain (percent : Document) (name : String) : Except Fault Binary64 :=
  match percent with
  | .scalar (.bool _) => refuse (.percent name)
  | d =>
    match d.toReal with
    | .error (.notReal _) | .error (.realKind _) => refuse (.percent name)
    | .error f => .error f
    | .ok x => if x.lt 0 || Binary64.lt 100 x then refuse (.percent name) else .ok (x / 100)

end StillVideo
