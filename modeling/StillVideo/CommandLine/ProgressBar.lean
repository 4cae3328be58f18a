import StillVideo.Progress

/-!
A progress bar on a terminal.

The bar appears with the first sample and goes away at the end. It shows the percentage to one
decimal place and a caption with frame, speed and time.
-/

namespace StillVideo.ProgressBar

/-- What happens to a bar. -/
inductive Call
  | opened (total : Binary64) (unit : String)
  | shown (percent : Number) (caption : String)
  | closed

/-- What counts as complete. -/
def total : Binary64 := 100

/-- A percentage to one decimal place; a whole number stays whole. -/
def roundPercent : Number → Number
  | .whole i => .whole i
  | .real x => .real ((Binary64.read? (x.fixed 1)).getD x)

/-- The caption for a sample. -/
def caption (s : SampleFields) : Except Fault String := do
  return "frame=" ++ s.frame.display ++ " fps=" ++ (← s.fps.fixed 1) ++ " time=" ++ s.time.display

/-- What is shown for a sample. -/
def show? (s : SampleFields) : Except Fault Call := do
  let percent ← Number.ofDocument s.progress
  return .shown (roundPercent percent) (← caption s)

/-- All that happens to a bar that gets samples and is closed then. -/
def calls : List SampleFields → Except Fault (List Call)
  | [] => .ok []
  | samples => do return .opened total "%" :: (← samples.mapM show?) ++ [.closed]

end StillVideo.ProgressBar
