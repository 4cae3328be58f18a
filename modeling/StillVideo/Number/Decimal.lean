import StillVideo.Number.Numeral
import StillVideo.Number.Shortest

/-!
Decimal floating point.

A decimal keeps the digits it was written with: `finite neg c e` is `c * 10 ^ e` with a sign, so
that `1.50` and `1.5` are equal in value and differ in text. Reading is exact. Sums and products
are rounded to 28 significant digits, a half going to the even neighbour, and are refused when the
result is too large or when the operands give no result.
-/

namespace StillVideo

-- Powers are those of the core library, whatever else is imported.
attribute [local instance (2000)] instPowNat

/-- A decimal number. What is no number may be signalling and carries a payload. -/
inductive Decimal
  | nan (signalling negative : Bool) (payload : Nat)
  | infinite (negative : Bool)
  | finite (negative : Bool) (coefficient : Nat) (exponent : Int)
  deriving DecidableEq, Repr

/-- Why an operation on decimals has no result. -/
inductive DecimalFault
  | invalid
  | overflow
  deriving DecidableEq, Repr

namespace Decimal

instance : Inhabited Decimal := ⟨.finite false 0 0⟩

/-! ## Limits -/

/-- How many significant digits a result keeps. -/
def precision : Nat := 28

/-- The largest exponent of the first digit of a result. -/
def maxExponent : Int := 999999

/-- The smallest exponent of the last digit of a result. -/
def minScale : Int := -1000026

/-- The largest exponent of the last digit of a result that uses all digits. -/
def maxScale : Int := 999972

/-- The largest exponent of the first digit that can be written down. -/
def maxWritten : Int := 999999999999999999

/-- The smallest exponent of the last digit that can be written down. -/
def minWritten : Int := -1999999999999999997

/-- The number of digits of a coefficient; zero has one digit. -/
def size (c : Nat) : Nat := (decimalDigits c).length

/-! ## Reading and writing -/

/-- A whole number as a decimal. -/
def ofInt (i : Int) : Decimal := .finite (i < 0) i.natAbs 0

/-- The word for no number, and the digits of its payload. -/
def readNaN? (negative : Bool) (cs : List Char) : Option Decimal :=
  match cs.map smallLetter with
  | 'n' :: 'a' :: 'n' :: digits =>
    if digits.all isPlainDigit then some (.nan false negative (digitsValue digits)) else none
  | 's' :: 'n' :: 'a' :: 'n' :: digits =>
    if digits.all isPlainDigit then some (.nan true negative (digitsValue digits)) else none
  | _ => none

/-- The exponents of a written number are within the limits of what can be written down. -/
def writable (c : Nat) (e : Int) : Bool :=
  minWritten ≤ e && (if c = 0 then e else e + size c - 1) ≤ maxWritten

/-- The decimal that a text writes, exactly. White space may stand around, digits of every script
count, and underscores are ignored wherever they stand. -/
def read? (s : String) : Option Decimal :=
  let cs := ((trim isBlank s.toList).filter (· != '_')).map plainDigit
  let (negative, body) := readSign cs
  match readNaN? negative body with
  | some d => some d
  | none =>
    match Numeral.read? cs with
    | some (.infinite negative) => some (.infinite negative)
    | some (.finite negative c e) => if writable c e then some (.finite negative c e) else none
    | _ => none

/-- The digits with a point after `place` of them; a place that lies outside is filled with zeros.
-/
def pointed (digits : List Char) (place : Int) : List Char :=
  if place ≤ 0 then '0' :: '.' :: (List.replicate (-place).toNat '0' ++ digits)
  else if digits.length ≤ place.toNat then
    digits ++ List.replicate (place.toNat - digits.length) '0'
  else digits.take place.toNat ++ '.' :: digits.drop place.toNat

/-- The text of a decimal: all its digits, positional if the last digit is no higher than the ones
and at most five zeros follow the point, else with an exponent. -/
def text : Decimal → String
  | .nan signalling negative payload =>
    (if negative then "-" else "") ++ (if signalling then "sNaN" else "NaN") ++
      (if payload = 0 then "" else String.ofList (decimalDigits payload))
  | .infinite negative => if negative then "-Infinity" else "Infinity"
  | .finite negative c e =>
    let digits := decimalDigits c
    let left := e + digits.length
    let body :=
      if e ≤ 0 ∧ -6 < left then pointed digits left
      else
        let scale := left - 1
        let power := if scale = 0 then [] else
          'E' :: (if scale < 0 then '-' else '+') :: decimalDigits scale.natAbs
        pointed digits 1 ++ power
    String.ofList (if negative then '-' :: body else body)

/-! ## Rounding to the limits -/

/-- A payload keeps as many digits as a result. -/
def limitPayload : Decimal → Decimal
  | .nan s n p => .nan s n (p % 10 ^ precision)
  | d => d

/-- A coefficient rounded to the scale `scale`; one digit more than allowed is folded back. -/
def rescale (c : Nat) (e scale : Int) : Nat × Int :=
  let kept : Int := size c + e - scale
  if kept < 0 then (0, scale)
  else
    let r := roundDiv c (10 ^ (scale - e).toNat)
    if size r > kept.toNat ∧ size r > precision then (r / 10, scale + 1) else (r, scale)

/-- The nearest number within the limits. -/
def limit (negative : Bool) (c : Nat) (e : Int) : Except DecimalFault Decimal :=
  if c = 0 then .ok (.finite negative 0 (min (max e minScale) maxExponent))
  else
    let least : Int := size c + e - precision
    if maxScale < least then .error .overflow
    else
      let scale := max least minScale
      if e < scale then
        let (r, s) := rescale c e scale
        if maxScale < s then .error .overflow else .ok (.finite negative r s)
      else .ok (.finite negative c e)

/-! ## Arithmetic -/

/-- The result of an operation with an operand that is no number, if there is one. -/
def nanOperand? (x y : Decimal) : Option (Except DecimalFault Decimal) :=
  match x, y with
  | .nan true .., _ | _, .nan true .. => some (.error .invalid)
  | d@(.nan false ..), _ | _, d@(.nan false ..) => some (.ok d.limitPayload)
  | _, _ => none

/-- The product. -/
def mul (x y : Decimal) : Except DecimalFault Decimal :=
  match nanOperand? x y with
  | some r => r
  | none =>
    match x, y with
    | .infinite s, .infinite t => .ok (.infinite (s != t))
    | .infinite s, .finite t c _ | .finite t c _, .infinite s =>
      if c = 0 then .error .invalid else .ok (.infinite (s != t))
    | .finite s c e, .finite t d f => limit (s != t) (c * d) (e + f)
    | _, _ => .error .invalid

/-- Two numbers on one scale. Of a summand too small to be seen beside the other only the sign
matters, so it is replaced by a unit just below the last digit that can be kept. -/
def align (c : Nat) (e : Int) (d : Nat) (f : Int) : Nat × Nat × Int :=
  if e < f then
    let (d', c', g) := shift d f c e
    (c', d', g)
  else shift c e d f
where
  /-- The first operand has the larger exponent. -/
  shift (c : Nat) (e : Int) (d : Nat) (f : Int) : Nat × Nat × Int :=
    let least := e + min (-1) ((size c : Int) - precision - 2)
    let (d, f) := if (size d : Int) + f - 1 < least then (1, least) else (d, f)
    (c * 10 ^ (e - f).toNat, d, f)

/-- The sum of two numbers that are not zero. -/
def addNonzero (s : Bool) (c : Nat) (e : Int) (t : Bool) (d : Nat) (f : Int) :
    Except DecimalFault Decimal :=
  let (c', d', g) := align c e d f
  if s = t then limit s (c' + d') g
  else if c' = d' then limit false 0 (min e f)
  else if c' < d' then limit t (d' - c') g
  else limit s (c' - d') g

/-- A number beside a zero: zeros are appended as far as the zero's scale and the digits allow. -/
def addZero (t : Bool) (d : Nat) (f zeroScale : Int) : Except DecimalFault Decimal :=
  let scale := max zeroScale (f - precision - 1)
  if scale ≤ f then limit t (d * 10 ^ (f - scale).toNat) scale
  else limit t d f

/-- The sum. -/
def add (x y : Decimal) : Except DecimalFault Decimal :=
  match nanOperand? x y with
  | some r => r
  | none =>
    match x, y with
    | .infinite s, .infinite t => if s = t then .ok (.infinite s) else .error .invalid
    | .infinite s, _ | _, .infinite s => .ok (.infinite s)
    | .finite s c e, .finite t d f =>
      if c = 0 ∧ d = 0 then limit (s && t) 0 (min e f)
      else if c = 0 then addZero t d f e
      else if d = 0 then addZero s c e f
      else addNonzero s c e t d f
    | _, _ => .error .invalid

/-- The number with the other sign; what is no number stays as it is. -/
def negate : Decimal → Decimal
  | .nan s n p => .nan s n p
  | .infinite s => .infinite !s
  | .finite s c e => .finite (!s) c e

/-- The difference. -/
def sub (x y : Decimal) : Except DecimalFault Decimal := add x y.negate

/-! ## Conversion -/

/-- The nearest binary number; a signalling value has none. -/
def toBinary? : Decimal → Option Binary64
  | .nan signalling _ _ => if signalling then none else some .nan
  | .infinite s => some (.infinite s)
  | .finite s c e => some (Binary64.ofNumeral (.finite s c e))

end Decimal

end StillVideo
