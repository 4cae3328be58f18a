import StillVideo.Yaml.Node

/-!
The values that the texts of scalars write.

A scalar is read as its tag tells. A mapping may stand where a scalar is asked for: it stands for
what is under its default key. A text that writes no value of its kind is a fault of conversion.
-/

namespace StillVideo.Yaml

/-- A fault of conversion. -/
def unconverted {α : Type} (f : Fault) : Result α := .error (.conversion f)

/-- A result of a conversion. -/
def converted {α : Type} : Except Fault α → Result α
  | .ok a => .ok a
  | .error f => unconverted f

/-! ## Numbers -/

/-- Past the mark of a base, and past one underscore behind it. -/
def skipBaseMark (mark : List Char) (cs : List Char) : List Char :=
  match cs with
  | '0' :: m :: rest => if mark.contains m then rest else cs
  | _ => cs

/-- A whole number in a base that is a power of two: sign, perhaps the mark of the base, and
digits. -/
def wholeInBase (base : Nat) (mark cs : List Char) : Result Int :=
  let (negative, body) := readSign ((trim isNumeralPadding cs).map plainDigit)
  let digits := skipBaseMark mark body
  if digits.isEmpty || !digits.all (fun c => isHexDigit c && hexValue c < base) then
    unconverted (.notWhole base (quoted (String.ofList cs)))
  else
    let n := digits.foldl (fun n c => n * base + hexValue c) 0
    return if negative then -(n : Int) else n

/-- A whole number in decimal digits. -/
def wholeInDecimal (cs : List Char) : Result Int :=
  let s := String.ofList cs
  converted (Document.wholeOfText s (quoted s))

/-- Sixtieths of sixtieths, the last one first. -/
def sixtieths : List Int → Int
  | [] => 0
  | d :: ds => d + 60 * sixtieths ds

/-- A whole number: underscores are dropped, `0b` marks binary, `0x` hexadecimal, another leading
zero octal digits, and colons separate sixtieths. -/
def intValue (s : String) : Result Int := do
  let cs := s.toList.filter (· != '_')
  let sign : Int := if cs.head? == some '-' then -1 else 1
  let body := dropSign cs
  match body with
  | [] => unconverted .emptyScalar
  | ['0'] => return 0
  | '0' :: 'b' :: ds => return sign * (← wholeInBase 2 ['b', 'B'] ds)
  | '0' :: 'x' :: ds => return sign * (← wholeInBase 16 ['x', 'X'] ds)
  | '0' :: _ => return sign * (← wholeInBase 8 ['o', 'O'] body)
  | _ =>
    if body.contains ':' then
      let parts ← (splitFields ':' body).mapM wholeInDecimal
      return sign * sixtieths parts.reverse
    else return sign * (← wholeInDecimal body)

/-- Floating sixtieths of sixtieths, the last one first, added from the last one on. -/
def floatSixtieths (total : Binary64) (base : Int) : List Binary64 → Result Binary64
  | [] => return total
  | d :: ds => do floatSixtieths (total + d * (← converted (realOfInt base))) (base * 60) ds

/-- A floating number in decimal digits. -/
def realInDecimal (cs : List Char) : Result Binary64 :=
  converted (Document.text (String.ofList cs)).toReal

/-- A text without underscores, in small letters. -/
def floatLetters (s : String) : List Char :=
  (lowercase (String.ofList (s.toList.filter (· != '_')))).toList

/-- A floating number: underscores are dropped, and colons separate sixtieths. -/
def floatValue (s : String) : Result Binary64 := do
  let cs := floatLetters s
  let signed := fun (x : Binary64) => if cs.head? == some '-' then -x else x
  let body := dropSign cs
  if cs.isEmpty then unconverted .emptyScalar
  else if body == ".inf".toList then return signed (.infinite false)
  else if body == ".nan".toList then return .nan
  else if body.contains ':' then
    let parts ← (splitFields ':' body).mapM realInDecimal
    return signed (← floatSixtieths 0 1 parts.reverse)
  else return signed (← realInDecimal body)

/-- The text is the word for no number. -/
def isNaNWord (s : String) : Bool := dropSign (floatLetters s) == ".nan".toList

/-! ## Moments -/

/-- The minutes by which a zone is ahead of universal time. -/
def zoneOffset : Option (Bool × List Char × List Char) → Int
  | none => 0
  | some (negative, hours, minutes) =>
    let total : Int := digitsValue hours * 60 + digitsValue minutes
    if negative then -total else total

/-- The moment of a date and a time of day, if there is such a moment. -/
def momentValue (date : Date) (w : WrittenClock) : Result Scalar :=
  let m : Moment := ⟨date, digitsValue w.hour, digitsValue w.minute, digitsValue w.second,
    digitsValue ((w.fraction ++ List.replicate 6 '0').take 6), w.zone.map zoneOffset⟩
  match m.fault? with
  | some f => unconverted (.calendar f)
  | none => return .moment m

/-- The date or the moment that written numbers tell. -/
def dateValue (w : WrittenMoment) : Result Scalar :=
  let date : Date := ⟨digitsValue w.year, digitsValue w.month, digitsValue w.day⟩
  match w.clock with
  | some c => momentValue date c
  | none =>
    match date.fault? with
    | some f => unconverted (.calendar f)
    | none => return .date date

/-! ## All kinds -/

/-- The text of a node that stands for a scalar. -/
def scalarText (nodes : Array Node) : Nat → Nat → Result String
  | 0, _ => unconverted .nesting
  | n + 1, i =>
    match nodes.getD i default with
    | .scalar _ s => return s
    | .sequence .. => malformed
    | .mapping _ entries =>
      match entries.find? fun e => (nodes.getD e.1 default).tag == .value with
      | some e => scalarText nodes n e.2
      | none => malformed

/-- The truth value of a word. -/
def boolValue (s : String) : Result Bool :=
  let word := lowercase s
  if trueWords.contains word then return true
  else if falseWords.contains word then return false
  else unconverted (.unknownWord word)

/-- The octets that a text of ASCII characters writes. -/
def octetsValue (s : String) : Result (List Nat) :=
  if s.toList.any fun c => 128 ≤ c.toNat then malformed
  else
    match Octets.decode? s.toList with
    | some octets => return octets
    | none => malformed

/-- The date or moment that a node writes by itself. -/
def timestampValue : Node → Result Scalar
  | .scalar _ s =>
    match readMoment? (dropLineFeed s.toList) with
    | some w => dateValue w
    | none => unconverted (.missingOperation "NoneType" "groupdict")
  | _ => unconverted (.stringKind "list")

/-- The value of a node that stands for a scalar. -/
def scalarValue (nodes : Array Node) (i : Nat) : Result Scalar := do
  let node := nodes.getD i default
  let text := scalarText nodes (nodes.size + 1) i
  match node.tag with
  | .null => let _ ← text; return .null
  | .bool => return .bool (← boolValue (← text))
  | .int => return .int (← intValue (← text))
  | .float => return .real (← floatValue (← text))
  | .binary => return .octets (← octetsValue (← text))
  | .timestamp => let _ ← text; timestampValue node
  | .text => return .text (← text)
  | _ => malformed

end StillVideo.Yaml
