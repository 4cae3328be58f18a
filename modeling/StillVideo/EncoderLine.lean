import StillVideo.Text.Blank

/-!
What the encoder writes, line by line.

On its output pipe the encoder reports progress as lines of a key and a value; on its error pipe it
writes free text. A line is read without its line end; a blank line says nothing.
-/

namespace StillVideo

/-- One of the two pipes of the encoder. -/
inductive Pipe
  | output | errors
  deriving DecidableEq, Repr

/-- The name of a pipe. -/
def Pipe.name : Pipe → String
  | .output => "stdout"
  | .errors => "stderr"

/-- What a line says. -/
inductive EncoderLine
  | progress (key value : String)
  | diagnostic (text : String)
  | unrecognized (text : String)
  deriving DecidableEq, Repr

namespace EncoderLine

/-- A character of a line end. -/
def isLineEnd (c : Char) : Bool := c == '\r' || c == '\n'

/-- The text has nothing but white space. -/
def isBlankText (cs : List Char) : Bool := cs.all isBlank

/-- A key names something and has no space inside. -/
def isKey (cs : List Char) : Bool := !cs.isEmpty && !cs.contains ' '

/-- A key before the first equals sign and the value behind it, both without white space around. -/
def readPair? (cs : List Char) : Option (List Char × List Char) :=
  match cs.dropWhile (· != '=') with
  | [] => none
  | _ :: value =>
    let key := trim isBlank (cs.takeWhile (· != '='))
    if isKey key then some (key, trim isBlank value) else none

/-- Reads a line from a pipe. -/
def read (pipe : Pipe) (line : String) : EncoderLine :=
  let cs := trimRight isLineEnd line.toList
  if isBlankText cs then .unrecognized (String.ofList cs)
  else
    match pipe with
    | .errors => .diagnostic (String.ofList cs)
    | .output =>
      match readPair? cs with
      | some (key, value) => .progress (String.ofList key) (String.ofList value)
      | none => .unrecognized (String.ofList cs)

end EncoderLine

end StillVideo
