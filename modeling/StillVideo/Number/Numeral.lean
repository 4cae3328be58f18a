import StillVideo.Text.Blank
import StillVideo.Text.Digit
import StillVideo.Text.Lowercase
import StillVideo.Number.Binary64

/-!
Numerals as people write them.

A numeral is a sign and decimal digits with an optional point and an optional exponent, or one of
the words for infinity and for no number in any case. Digits of every script count, white space may
stand around, and an underscore may stand between two digits. `Numeral.read?` reads the bare form,
`Binary64.read?` the whole.
-/

namespace StillVideo

-- Powers are those of the core library, whatever else is imported.
attribute [local instance (2000)] instPowNat

/-- A numeral before any rounding: `finite neg m e` writes `m * 10 ^ e` with a sign. -/
inductive Numeral
  | nan
  | infinite (negative : Bool)
  | finite (negative : Bool) (digits : Nat) (exponent : Int)
  deriving DecidableEq, Repr

/-- A leading sign, `true` for minus, and what follows it. -/
def readSign : List Char → Bool × List Char
  | '-' :: cs => (true, cs)
  | '+' :: cs => (false, cs)
  | cs => (false, cs)

/-- The number written by a nonempty row of digits and nothing else. -/
def readDigits? (cs : List Char) : Option Nat :=
  if cs.isEmpty || !cs.all isPlainDigit then none else some (digitsValue cs)

/-- An optional sign and digits. -/
def readInt? (cs : List Char) : Option Int :=
  let (negative, body) := readSign cs
  (readDigits? body).map fun n => if negative then -(n : Int) else n

namespace Numeral

/-- The exponent part of a numeral: nothing, or the letter and a whole number. -/
def readExponent? : List Char → Option Int
  | [] => some 0
  | c :: cs => if c == 'e' || c == 'E' then readInt? cs else none

/-- Digits with an optional point and exponent; at least one digit stands beside the point. -/
def readMagnitude? (negative : Bool) (cs : List Char) : Option Numeral :=
  let whole := cs.takeWhile isPlainDigit
  let rest := cs.dropWhile isPlainDigit
  let (fraction, tail) :=
    match rest with
    | '.' :: more => (more.takeWhile isPlainDigit, more.dropWhile isPlainDigit)
    | more => ([], more)
  if whole.isEmpty && fraction.isEmpty then none
  else (readExponent? tail).map fun e =>
    .finite negative (digitsValue (whole ++ fraction)) (e - fraction.length)

/-- A numeral of plain digits without padding or underscores. -/
def read? (cs : List Char) : Option Numeral :=
  let (negative, body) := readSign cs
  let word := String.ofList (body.map smallLetter)
  if word == "inf" || word == "infinity" then some (.infinite negative)
  else if word == "nan" then some .nan
  else readMagnitude? negative body

end Numeral

/-- The characters without underscores, if each underscore stands between two digits. -/
def dropUnderscores? (cs : List Char) : Option (List Char) :=
  go false cs
where
  /-- `afterDigit` tells whether the character before was a digit. -/
  go (afterDigit : Bool) : List Char → Option (List Char)
    | [] => some []
    | '_' :: d :: cs =>
      if afterDigit && isPlainDigit d then (go true cs).map (d :: ·) else none
    | '_' :: [] => none
    | c :: cs => (go (isPlainDigit c) cs).map (c :: ·)

/-- A numeral text in plain digits, without padding and underscores. -/
def plainNumeral? (s : String) : Option (List Char) :=
  dropUnderscores? ((trim isNumeralPadding s.toList).map plainDigit)

/-- The most digits that a whole number may be written with. -/
def digitLimit : Nat := 4300

/-- The whole number that a text writes: sign and digits, padding and underscores allowed. -/
def readWhole? (s : String) : Option Int :=
  (plainNumeral? s).bind fun cs =>
    if digitLimit < (readSign cs).2.length then none else readInt? cs

/-- How many digits a text writes in a row after its sign. -/
def digitCount (s : String) : Nat :=
  let cs := (trim isNumeralPadding s.toList).map plainDigit
  ((readSign cs).2.takeWhile fun c => isPlainDigit c || c == '_').countP isPlainDigit

namespace Binary64

/-- The value nearest to a numeral. Exponents beyond the format's reach are decided by the number
of digits alone, so that no huge power is computed. -/
def ofNumeral : Numeral → Binary64
  | .nan => .nan
  | .infinite negative => .infinite negative
  | .finite negative digits exponent =>
    let size := (Nat.toDigits 10 digits).length
    if digits = 0 then ofUnits negative 0
    else if 310 < exponent + size then .infinite negative
    else if exponent + size < -330 then ofUnits negative 0
    else if 0 ≤ exponent then ofQuotient negative (digits * 10 ^ exponent.toNat) 1
    else ofQuotient negative digits (10 ^ (-exponent).toNat)

/-- The floating point number that a text writes. -/
def read? (s : String) : Option Binary64 :=
  ((plainNumeral? s).bind Numeral.read?).map ofNumeral

end Binary64

end StillVideo
