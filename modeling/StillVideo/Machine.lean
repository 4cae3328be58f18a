import StillVideo.CancelToken
import StillVideo.Document.Parts
import StillVideo.EncoderLine
import StillVideo.Path
import StillVideo.Text.Surrogate

/-!
The machine a job runs on, as far as a job can see it: files and directories, a clock, the way other
programs answer, and a record of everything that has happened.

A `Job` is a computation on a machine that may end in a fault; what it did before the fault stays
done. Whatever the system can refuse to do goes through `Job.permit`, which asks the machine. Paths
are kept in normal form, so that two spellings of one path are one file.
-/

namespace StillVideo

/-- What a file holds. Of a document that is given as data the text is not known; media are no text,
and some files may not be opened. -/
inductive Content
  | text (s : String)
  | data (d : Document)
  | media
  | unreadable

/-- Local time as the calendar shows it. -/
structure LocalTime where
  year : Nat
  month : Nat
  day : Nat
  hour : Nat
  minute : Nat
  second : Nat

/-- How a program ends that joins files: its exit code, whether it writes its last argument, and how
long it takes. -/
structure Joiner where
  exitCode : Int
  creates : Bool
  seconds : Binary64

/-- What comes out of a pipe: a line, or a failure to read. -/
inductive Delivery
  | line (text : String)
  | failure (text : String)

/-- One step of an encoder: the time that passes, whether the run is cancelled just before, and what
a pipe delivers. -/
structure EncoderStep where
  pipe : Pipe
  delivery : Delivery
  seconds : Binary64
  cancels : Bool

/-- How the encoder behaves: it does not start, its arguments cannot even be handed over, or it
takes steps and exits. A stubborn one ignores the request to stop; the run may also be cancelled
when it has already exited. -/
inductive Encoder
  | missing (reason : String)
  | unusable (reason : String)
  | script (steps : List EncoderStep) (exitCode : Int) (stubborn cancelAtExit : Bool)

/-- Everything that can be observed from outside, in the order in which it happens. A program counts
as started, and a file as asked for, when that is tried. -/
inductive Event
  | madeDirectories (path : String)
  | madeTemporary (path : String)
  | removedTree (path : String)
  | wrote (path text : String)
  | drew (path picture : String)
  | started (args : List Document)
  | probed (args : List Document)
  | printed (text : String)
  | planned (plan : Document)
  | commandStarted (command : String)
  | commandEnded (command : String) (code : Int) (seconds : Binary64)
  | heard (pipe line : Document)
  | cancelled

/-- What is to be done when a run is cancelled. -/
inductive StopAction
  | stopEncoder
  deriving DecidableEq, Repr

/-- A machine. The token cancels the run that is going on or the next one. Commands may be reported
to somebody when they start and when they end. The system may refuse what an event says. The record
of events has the latest one first. -/
structure Machine where
  cwd : String
  home : String
  environment : List (String × String)
  now : LocalTime
  clock : Binary64
  files : List (String × Content)
  directories : List String
  sizes : List (String × Int)
  onPath : Option String
  bundled : Except String (Option String)
  banners : List (String × String)
  joiner : Joiner
  encoder : Encoder
  token : CancelToken StopAction
  quiet : Bool
  reporting : Bool := false
  refuses : Event → Option HostFault := fun _ => none
  record : List Event

/-- A computation on a machine. -/
abbrev Job := ExceptT Fault (StateM Machine)

namespace Machine

/-- The normal form of a path. -/
def key (m : Machine) (path : String) : String := Path.absolute m.cwd path

/-- The file of a path. -/
def file? (m : Machine) (path : String) : Option Content :=
  if path.isEmpty then none else m.files.lookup (m.key path)

/-- The path is a directory. -/
def isDirectory (m : Machine) (path : String) : Bool :=
  !path.isEmpty && (m.key path == "/" || m.directories.contains (m.key path))

/-- The path is a file or a directory. -/
def pathExists (m : Machine) (path : String) : Bool :=
  (m.file? path).isSome || m.isDirectory path

/-- With a directory and all those above it. -/
def withDirectory (m : Machine) (path : String) : Machine :=
  let new := (m.key path :: Path.parents (m.key path)).filter fun d =>
    !(d == "/" || m.directories.contains d)
  { m with directories := new ++ m.directories }

/-- With a file and all directories above it. -/
def withFile (m : Machine) (path : String) (content : Content) : Machine :=
  let k := m.key path
  let m := m.withDirectory (Path.dirname k)
  { m with files := (k, content) :: m.files.filter (·.1 != k) }

/-- A path lies below a directory or is the directory. -/
def isWithin (root path : String) : Bool :=
  path == root || (root ++ "/").toList.isPrefixOf path.toList

/-- Without a directory and all that is below it. -/
def withoutTree (m : Machine) (path : String) : Machine :=
  let k := m.key path
  { m with
    files := m.files.filter fun f => !isWithin k f.1
    directories := m.directories.filter fun d => !isWithin k d }

/-- What opening a file gives. -/
def openFile (m : Machine) (path : String) : Except Fault Content :=
  match m.file? path with
  | some .unreadable => .error (.host (.system ("[Errno 13] Permission denied: " ++ quoted path)))
  | some content => .ok content
  | none => .error (.host (.system ("[Errno 21] Is a directory: " ++ quoted path)))

/-- How the encoder behaves when it is given arguments, which the system may refuse. -/
def encoderFor (m : Machine) (args : List Document) : Encoder :=
  match m.refuses (.started args) with
  | some (.system reason) => .missing reason
  | some (.value reason) => .unusable reason
  | none => m.encoder

/-- The size of a file in bytes. -/
def size (m : Machine) (path : String) : Int :=
  match m.sizes.lookup path with
  | some n => n
  | none =>
    match m.file? path with
    | some (.text s) => s.utf8ByteSize
    | _ => 0

/-- With one more event on the record. -/
def note (m : Machine) (e : Event) : Machine := { m with record := e :: m.record }

/-- With more events on the record, given in the order in which they happened. -/
def noteAll (m : Machine) (es : List Event) : Machine := { m with record := es.reverse ++ m.record }

/-- Asks whatever runs here to stop, while no encoder is running. -/
def cancel (m : Machine) : Machine := { m with token := m.token.request.1 }.note .cancelled

/-- After some time. -/
def after (m : Machine) (seconds : Binary64) : Machine := { m with clock := m.clock + seconds }

end Machine

/-! ## Refusals of the system -/

/-- The characters of a text from the first one on that has no encoding, with its place. -/
def unencodable? (text : String) : Option (Nat × List Char) :=
  (text.toList.findIdx? fun c => (surrogate? c).isSome).map fun i =>
    (i, (text.toList.drop i).takeWhile fun c => (surrogate? c).isSome)

/-- Why a text cannot be written, if it cannot: half of a pair has no encoding. -/
def encodingFault? (text : String) : Option HostFault :=
  (unencodable? text).map fun (i, cs) =>
    let place := match cs with
      | [c] => "character " ++ quoted (String.singleton c) ++ " in position " ++ toString i
      | _ => "characters in position " ++ toString i ++ "-" ++ toString (i + cs.length - 1)
    .value ("'utf-8' codec can't encode " ++ place ++ ": surrogates not allowed")

/-- What a system refuses because of the form of what is asked for: texts without an encoding,
arguments with a null character, a directory without a name. -/
def refusedForm : Event → Option HostFault
  | .printed text | .wrote _ text => encodingFault? text
  | .started args | .probed args =>
    if args.any fun d => d.display.toList.contains '\x00' then some (.value "embedded null byte")
    else none
  | .madeDirectories path =>
    if path.isEmpty then some (.system "[Errno 2] No such file or directory: ''") else none
  | _ => none

namespace Job

/-- Ends a job with a refusal. -/
def refuse {α : Type} (r : Refusal) : Job α := throw (.refused r)

/-- A conversion as part of a job. -/
def ofExcept {α : Type} (r : Except Fault α) : Job α :=
  match r with
  | .ok a => pure a
  | .error f => throw f

def machine : Job Machine := get

def note (e : Event) : Job Unit := modify (·.note e)

/-- Goes on unless the machine refuses what an event says. -/
def permit (e : Event) : Job Unit := fun m =>
  match m.refuses e with
  | none => (.ok (), m)
  | some f => (.error (.host f), m)

/-- Does what an event says; what is refused does not happen. -/
def act (e : Event) : Job Unit := do
  permit e
  note e

/-- Tries what an event says; what is refused has been tried. -/
def attempt (e : Event) : Job Unit := do
  note e
  permit e

/-- Prints a line. -/
def print (line : String) : Job Unit := act (.printed (line ++ "\n"))

/-- Prints a line unless the machine is to be quiet. -/
def printLoud (line : String) : Job Unit := do
  if !(← machine).quiet then print line

/-- The path must exist. -/
def requirePath (path : String) : Job Unit := do
  if !(← machine).pathExists path then refuse (.fileNotFound path)

/-- Creates a directory with all directories above it. -/
def makeDirectories (path : String) : Job Unit := do
  act (.madeDirectories path)
  modify (·.withDirectory path)

/-- Creates a fresh directory for temporary files, in `parent` or in the common place. -/
def makeTemporary (lead : String) (parent : Option String) : Job String := do
  let parent := match parent with
    | some p => if p.isEmpty then "/tmp" else p
    | none => "/tmp"
  let path := parent ++ "/" ++ lead ++ "XXXXXXXX"
  act (.madeTemporary path)
  modify (·.withDirectory path)
  return path

/-- Removes a directory and all that is below it. -/
def removeTree (path : String) : Job Unit := do
  note (.removedTree path)
  modify (·.withoutTree path)

/-- A file with a text, once it is written. -/
def leaveText (path text : String) : Job Unit := do
  note (.wrote path text)
  modify (·.withFile path (.text text))

/-- Writes a text file. A text that cannot be written leaves an empty file, since the file is opened
first. -/
def writeText (path text : String) : Job Unit := fun m =>
  match m.refuses (.wrote path text) with
  | none => leaveText path text m
  | some (.system reason) => (.error (.host (.system reason)), m)
  | some (.value reason) => (leaveText path "" >>= fun _ => throw (.host (.value reason))) m

/-- Runs `cleanup` when `job` ends in a fault that satisfies `p`, and keeps the fault. -/
def onFault {α : Type} (p : Fault → Bool) (job : Job α) (cleanup : Job Unit) : Job α := fun m =>
  match job m with
  | (.ok a, m) => (.ok a, m)
  | (.error f, m) =>
    if p f then
      match cleanup m with
      | (.ok _, m) => (.error f, m)
      | (.error g, m) => (.error g, m)
    else (.error f, m)

/-- Runs `cleanup` after `job` however it ends. -/
def always {α : Type} (job : Job α) (cleanup : Job Unit) : Job α := fun m =>
  match job m with
  | (.ok a, m) =>
    match cleanup m with
    | (.ok _, m) => (.ok a, m)
    | (.error g, m) => (.error g, m)
  | (.error f, m) =>
    match cleanup m with
    | (.ok _, m) => (.error f, m)
    | (.error g, m) => (.error g, m)

end Job

end StillVideo
