import StillVideo.Number.Binary64

/-!
The text of floating point numbers.

`shortest?` chooses the fewest decimal digits that still round to the value, and of those the
nearest, a tie going to the even last digit. `text` lays them out: positional from `0.0001` up to
sixteen digits before the point, with an exponent of at least two digits elsewhere, and always
recognisable as a fraction. `fixed` writes a chosen number of places.
-/

namespace StillVideo

-- Powers are those of the core library, whatever else is imported.
attribute [local instance (2000)] instPowNat

/-- The decimal digits of a number, most significant first. -/
def decimalDigits (n : Nat) : List Char := Nat.toDigits 10 n

/-- `cs` filled up on the left to `width` characters. -/
def padLeft (width : Nat) (fill : Char) (cs : List Char) : List Char :=
  List.replicate (width - cs.length) fill ++ cs

namespace Binary64

/-- `d * 10 ^ e` is nearer to `u` units than half the distance to the next magnitude; at exactly
half the distance the neighbour with the even significand wins. -/
def roundsTo (u d : Nat) (e : Int) : Bool :=
  let step := spacing u
  let below := if u = 2 ^ u.log2 ∧ 52 < u.log2 then step else 2 * step
  let even := u / step % 2 = 0
  -- four times the candidate and the value over a common denominator
  let candidate := 4 * d * one * 10 ^ e.toNat
  let scale := 10 ^ (-e).toNat
  let low := (4 * u - below) * scale
  let high := (4 * u + 2 * step) * scale
  (low < candidate && candidate < high) || (even && (candidate == low || candidate == high))

/-- So many places behind the point the digits of every magnitude have begun. -/
def pointPlaces : Nat := 330

/-- The exponent of the first decimal digit: `u` units are at least `10 ^ (k - 1)`, less than
`10 ^ k`. -/
def decimalPoint (u : Nat) : Int :=
  ((decimalDigits (u * 10 ^ pointPlaces / one)).length : Int) - pointPlaces

/-- The multiple of `10 ^ e` just below `u` units or equal to them. -/
def gridFloor (u : Nat) (e : Int) : Nat :=
  u * 10 ^ (-e).toNat / (one * 10 ^ e.toNat)

/-- Of a whole number and the next one those that serve; `nearest` if both do. -/
def neighbour? (floorServes nextServes : Bool) (floor nearest : Nat) : Option Nat :=
  match floorServes, nextServes with
  | false, false => none
  | true, false => some floor
  | false, true => some (floor + 1)
  | true, true => some nearest

/-- Of the two neighbours of `u` units among the multiples of `10 ^ e`, those that round to it;
the nearer one if both do, the even one in a tie. -/
def onGrid? (u : Nat) (e : Int) : Option Nat :=
  let d := gridFloor u e
  neighbour? (roundsTo u d e) (roundsTo u (d + 1) e) d
    (roundDiv (u * 10 ^ (-e).toNat) (one * 10 ^ e.toNat))

/-- The shortest digits for `u` units from `n` grids on, the first of them at `10 ^ e`. -/
def shortestFrom (u : Nat) : Nat → Int → Nat × Int
  | 0, e => (gridFloor u e, e)
  | n + 1, e => ((onGrid? u e).map (·, e)).getD (shortestFrom u n (e - 1))

/-- The fewest digits `d` and the exponent `e` such that `d * 10 ^ e` rounds to `u` units. -/
def shortest (u : Nat) : Nat × Int :=
  shortestFrom u 18 (decimalPoint u - 1)

/-- Positional notation of `0.digits * 10 ^ point`, with at least one digit on both sides. -/
def positional (digits : List Char) (point : Int) : List Char :=
  if point ≤ 0 then '0' :: '.' :: (List.replicate (-point).toNat '0' ++ digits)
  else
    let n := point.toNat
    if digits.length ≤ n then digits ++ List.replicate (n - digits.length) '0' ++ ['.', '0']
    else digits.take n ++ '.' :: digits.drop n

/-- One digit before the point, and the power of ten with its sign and two digits at least. -/
def scientific (digits : List Char) (point : Int) : List Char :=
  let e := point - 1
  let mantissa :=
    match digits with
    | [] => ['0']
    | [d] => [d]
    | d :: ds => d :: '.' :: ds
  mantissa ++ 'e' :: (if e < 0 then '-' else '+') :: padLeft 2 '0' (decimalDigits e.natAbs)

/-- The digits laid out: positional for points from -3 to 16, else with an exponent. -/
def layout (digits : List Char) (point : Int) : List Char :=
  if -4 < point ∧ point ≤ 16 then positional digits point else scientific digits point

/-- The text of a magnitude. -/
def magnitudeText (u : Nat) : List Char :=
  if u = 0 then ['0', '.', '0']
  else
    let (d, e) := shortest u
    let digits := trimZeros (decimalDigits d)
    layout digits (e + (decimalDigits d).length)
where
  /-- Zeros at the end of the digits carry no information. -/
  trimZeros (digits : List Char) : List Char := (digits.reverse.dropWhile (· == '0')).reverse

/-- The text of a number: the shortest digits that read back to it. -/
def text : Binary64 → String
  | .nan => "nan"
  | .infinite true => "-inf"
  | .infinite false => "inf"
  | .finite true u _ => String.ofList ('-' :: magnitudeText u)
  | .finite false u _ => String.ofList (magnitudeText u)

/-- The number rounded to `places` decimal places, a half going to the even neighbour, with exactly
that many digits after the point. -/
def fixed (places : Nat) : Binary64 → String
  | .nan => "nan"
  | .infinite true => "-inf"
  | .infinite false => "inf"
  | .finite s u _ =>
    let scaled := roundDiv (u * 10 ^ places) one
    let digits := padLeft (places + 1) '0' (decimalDigits scaled)
    let n := digits.length - places
    let body := if places = 0 then digits else digits.take n ++ '.' :: digits.drop n
    String.ofList (if s then '-' :: body else body)

end Binary64

end StillVideo
