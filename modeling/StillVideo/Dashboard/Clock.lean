import StillVideo.Document.Parts
import StillVideo.Timestamp

/-!
Times and progress as the dashboard shows them: a clock of hours, minutes and seconds, an estimate
of the time that is left, and a bar.
-/

namespace StillVideo

-- Powers are those of the core library, whatever else is imported.
attribute [local instance (2000)] instPowNat

/-- Hours, minutes and seconds of a whole number of seconds; what is negative shows as zero. -/
def clockText (seconds : Int) : String :=
  let total := seconds.toNat
  toString (total / 3600) ++ ":" ++ LocalTime.twoDigits (total % 3600 / 60) ++ ":" ++
    LocalTime.twoDigits (total % 60)

/-- The clock of any value that gives a whole number of seconds. -/
def clockOfValue (seconds : Document) : Except Fault String :=
  return clockText (← seconds.toWhole)

/-- The time that is left if the rest goes as fast as what is done: unknown until there is progress,
and none when all is done. -/
def estimateRemaining (elapsed percent : Number) : Except Fault (Option Binary64) := do
  if percent.le (.whole 0) || elapsed.le (.whole 0) then return none
  else if !percent.lt (.whole 100) && !percent.isNaN then return some 0
  else
    let rest ← Number.sub (.real 100) percent
    return some (← (← elapsed.mul rest).div percent)

/-- The time that is left, from values that must be numbers; without progress the time spent is not
looked at. -/
def estimateOfValues (elapsed percent : Document) : Except Fault (Option Binary64) := do
  let percent ← Number.ofDocument percent
  if percent.le (.whole 0) then return none
  else estimateRemaining (← Number.ofDocument elapsed) percent

/-- The least whole number of seconds that is not below an estimate. -/
def wholeSecondsAbove (x : Binary64) : Except Fault Int :=
  match x.ceil? with
  | some i => .ok i
  | none => .error (if x.isNaN then .nanToWhole else .infiniteToWhole)

/-- The clock of an estimate, which is rounded up. -/
def remainingText : Option Binary64 → Except Fault String
  | none => .ok "-"
  | some x => return clockText (← wholeSecondsAbove x)

/-! ## The bar -/

/-- A percentage between 0 and 100. -/
def clampPercent (percent : Number) : Number :=
  (Number.real 0).max (percent.min (.real 100))

/-- How many cells of a bar are filled, a half going to the even neighbour. -/
def filledCells (percent width : Number) : Except Fault Int := do
  let cells ← (← width.mul (clampPercent percent)).div (.real 100)
  match cells.round? with
  | some i => return i
  | none => .error (if cells.isNaN then .nanToWhole else .infiniteToWhole)

/-- The width of a bar unless told otherwise. -/
def defaultBarWidth : Int := 30

/-- How many cells there is room for. -/
def cellLimit : Int := 2 ^ (32 : Nat)

/-- `n` cells of a kind, none if `n` is negative; a count needs to fit into a machine word, and
there must be room for the cells. -/
def cells (kind : Char) (n : Int) : Except Fault (List Char) :=
  if n < -(2 ^ (63 : Nat)) ∨ 2 ^ (63 : Nat) ≤ n then .error .countRange
  else if cellLimit < n then .error .pictureRoom
  else .ok (List.replicate n.toNat kind)

/-- A bar of filled cells and empty ones. -/
def barText (percent : Number) (width : Int) : Except Fault String := do
  let filled ← filledCells percent (.whole width)
  return String.ofList ((← cells '█' filled) ++ (← cells '░' (width - filled)))

/-- A bar from values that must be numbers; its width must be a whole one, which is found out after
the filled cells. -/
def barOfValues (percent width : Document) : Except Fault String := do
  let percent ← Number.ofDocument percent
  match ← Number.ofDocument width with
  | .whole n => barText percent n
  | .real x =>
    let _ ← cells '█' (← filledCells percent (.real x))
    throw (.operandKind width.kind)

end StillVideo
