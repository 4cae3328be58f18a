import StillVideo.Dashboard.Panel
import StillVideo.Machine

/-!
The log of the dashboard, and all that is posted to its screen.

While a project is at work, the start and the end of each command and every line of the encoder are
to be written to the log. Whoever has something to post looks first whether the work is cancelled,
and posts nothing then, since the dashboard may be gone. The look and the post are two steps, and
somebody may leave in between.
-/

namespace StillVideo.Dashboard

/-- What happens on the screen besides the panels. -/
inductive ScreenEntry
  | log (text : String) (style : Style)
  | exit
  deriving DecidableEq, Repr

/-- A log entry of a text, as it is shown. -/
def ScreenEntry.logText (text : String) (style : Style) : ScreenEntry := .log (shownText text) style

/-- A line for the log: a value, which must be a text, and its style. -/
structure LogLine where
  text : Document
  style : Style

/-- The log entry of a line. -/
def LogLine.entry (l : LogLine) : Except Fault ScreenEntry :=
  match l.text with
  | .scalar (.text s) => .ok (.logText s l.style)
  | d => .error (.missingOperation d.kind "translate")

/-- What the dashboard hears of. -/
inductive Signal
  | started (command : Document)
  | ended (code seconds : Document)
  | line (text : Document)
  | cancelled

namespace Signal

/-- The signal that an event gives. Of commands the dashboard only hears if they are reported. -/
def ofEvent (reporting : Bool) : Event → Option Signal
  | .commandStarted command => if reporting then some (.started (.text command)) else none
  | .commandEnded _ code seconds =>
    if reporting then some (.ended (.int code) (.real seconds)) else none
  | .heard _ text => some (.line text)
  | .cancelled => some .cancelled
  | _ => none

/-- An exit code that stands for success: zero of any kind. -/
def isZero : Document → Bool
  | .scalar (.int i) => i == 0
  | .scalar (.bool b) => !b
  | .scalar (.real x) => x.eq 0
  | _ => false

/-- The line that a signal has for the log. It is put into words before anybody looks whether the
work is cancelled, and the seconds of a command must be a number even then. -/
def line? : Signal → Except Fault (Option LogLine)
  | .started command => .ok (some ⟨command, .accent⟩)
  | .line text => .ok (some ⟨text, .label⟩)
  | .ended code seconds => do
    let text := "ffmpeg exited " ++ code.display ++ " after " ++ (← seconds.fixed 1) ++ "s"
    return some ⟨.text text, if isZero code then .good else .bad⟩
  | .cancelled => .ok none

/-- The signal tells that the work is cancelled. -/
def isCancellation : Signal → Bool
  | .cancelled => true
  | _ => false

end Signal

/-- The entries that signals make in order when each look is followed by its post at once: none once
the work is cancelled. -/
def screenEntries (cancelled : Bool) : List Signal → Except Fault (List ScreenEntry)
  | [] => .ok []
  | s :: ss => do
    let line ← s.line?
    let admitted := if cancelled then none else line
    let entry ← admitted.mapM LogLine.entry
    return entry.toList ++ (← screenEntries (cancelled || s.isCancellation) ss)

/-! ## Looks and posts -/

/-- Who posts: the worker, which also reads the encoder's output, or the reader of its errors. Each
waits for its own post before it goes on. -/
inductive Poster
  | worker | reader
  deriving DecidableEq, Repr

/-- Who posts what an event tells. -/
def Poster.ofEvent : Event → Poster
  | .heard (.scalar (.text pipe)) _ => if pipe = Pipe.errors.name then .reader else .worker
  | _ => .worker

/-- What is posted: the panel of the project, the line of a signal, or the outcome. -/
inductive Post
  | project
  | signal (s : Signal)
  | outcome

/-- What is asked of the screen: somebody who has something to post looks whether the work is
cancelled, or somebody leaves, which cancels it. -/
inductive Request
  | look (who : Poster) (post : Post)
  | quit

/-- What an event asks of the screen. -/
def Request.ofEvent (reporting : Bool) (ev : Event) : Option Request :=
  match Signal.ofEvent reporting ev with
  | none => none
  | some .cancelled => some .quit
  | some s => some (.look (.ofEvent ev) (.signal s))

end StillVideo.Dashboard
