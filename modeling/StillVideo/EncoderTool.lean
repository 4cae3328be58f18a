import StillVideo.Machine
import StillVideo.Text.ShellWord
import StillVideo.Timecode

/-!
The encoder as a tool: where it is found, how other commands are run, and what its banner tells
about the length of a file.
-/

namespace StillVideo

/-- The environment variable that names the encoder. -/
def encoderVariable : String := "STILLCAST_FFMPEG"

/-- Finds the encoder: named by the environment, on the search path, or bundled. -/
def findEncoder : Job String := do
  let m ← Job.machine
  let named := (m.environment.lookup encoderVariable).getD ""
  if !named.isEmpty then
    if (m.file? named).isSome then return named
    else Job.refuse (.encoderLookup (encoderVariable ++ "=" ++ named ++ " not found"))
  else
    match m.onPath, m.bundled with
    | some tool, _ => return tool
    | none, .error reason => Job.refuse (.encoderLookup reason)
    | none, .ok tool =>
      let tool := tool.getD ""
      if (m.file? tool).isSome then return tool
      else Job.refuse (.encoderLookup "no bundled binary available")

/-- The encoder that is asked for, or the one that is found. -/
def requireEncoder (tool : Document) : Job Document := do
  if tool.isNull then return .text (← findEncoder) else return tool

/-- The command of arguments, each written as its text. -/
def commandOf (args : List Document) : String := commandText (args.map (·.display))

/-- Runs a command that is not an encoder run, reports its start and its end, and gives its exit
code. A command that joins files writes its last argument; one that does not start has no end. -/
def runCommand (args : List Document) : Job Int := do
  let command := commandOf args
  Job.printLoud ("CMD: '" ++ command ++ "'")
  Job.note (.commandStarted command)
  let before := (← Job.machine).clock
  Job.attempt (.started args)
  let joiner := (← Job.machine).joiner
  modify (·.after joiner.seconds)
  if joiner.creates && (args.map (·.display)).contains "-f" then
    modify (·.withFile (args.getLastD .null).display .media)
  Job.note (.commandEnded command joiner.exitCode ((← Job.machine).clock - before))
  return joiner.exitCode

/-! ## Lengths of files -/

/-- The rest of a text behind what it begins with. -/
def behind? (lead : List Char) (cs : List Char) : Option (List Char) :=
  if lead.isPrefixOf cs then some (cs.drop lead.length) else none

/-- Digits of any script and a colon, and the rest behind them. -/
def digitsColon? (cs : List Char) : Option (List Char × List Char) :=
  let digits := cs.takeWhile isDecimalDigit
  match cs.dropWhile isDecimalDigit with
  | ':' :: rest => if digits.isEmpty then none else some (digits ++ [':'], rest)
  | _ => none

/-- Digits with an optional fraction. -/
def digitsFraction? (cs : List Char) : Option (List Char) :=
  let digits := cs.takeWhile isDecimalDigit
  if digits.isEmpty then none
  else
    match cs.dropWhile isDecimalDigit with
    | '.' :: rest =>
      let fraction := rest.takeWhile isDecimalDigit
      some (if fraction.isEmpty then digits else digits ++ '.' :: fraction)
    | _ => some digits

/-- A length of hours, minutes and seconds at the beginning of a text. -/
def clockText? (cs : List Char) : Option (List Char) := do
  let (hours, rest) ← digitsColon? cs
  let (minutes, rest) ← digitsColon? rest
  let seconds ← digitsFraction? rest
  return hours ++ minutes ++ seconds

/-- The first length that a banner announces. -/
def bannerLength? : List Char → Option (List Char)
  | [] => none
  | c :: cs =>
    let here := do
      let rest ← behind? "Duration:".toList (c :: cs)
      clockText? (rest.dropWhile isBlank)
    here <|> bannerLength? cs

/-- Asks the encoder for the length of a file. -/
def probeLength (file tool : Document) : Job Binary64 := do
  let audio ← Job.ofExcept file.toPath
  Job.requirePath audio
  let tool ← requireEncoder tool
  Job.attempt (.probed [tool, .text "-hide_banner", .text "-i", file])
  let m ← Job.machine
  let banner := (m.banners.lookup audio <|> m.banners.lookup "*").getD ""
  match bannerLength? banner.toList with
  | none => Job.refuse (.durationUnreadable audio)
  | some clock =>
    let seconds := readElapsed (String.ofList clock)
    if seconds.le 0 then Job.refuse (.durationZero audio) else return seconds

end StillVideo
