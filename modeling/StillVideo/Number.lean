import StillVideo.Fault

/-!
Numbers from documents.

A number is whole or floating. Whole numbers are compared with floating ones by their exact values
and turn into the nearest floating number when they meet one in arithmetic; a whole number beyond
the floating range has none.
-/

namespace StillVideo

-- Powers are those of the core library, whatever else is imported.
attribute [local instance (2000)] instPowNat

/-- The floating number nearest to a whole number, if it is within range. -/
def realOfInt (i : Int) : Except Fault Binary64 :=
  let x := Binary64.ofInt i
  if x.isFinite then .ok x else .error .wholeToReal

/-- The whole part of a floating number. -/
def wholeOfReal (x : Binary64) : Except Fault Int :=
  match x.truncate? with
  | some i => .ok i
  | none => .error (if x.isNaN then .nanToWhole else .infiniteToWhole)

/-- A whole number with more digits than can be shown. -/
def isOverlong (i : Int) : Bool := 4 * digitLimit ≤ i.natAbs.log2 || 10 ^ digitLimit ≤ i.natAbs

/-- A scalar that can be shown. -/
def Scalar.isShowable : Scalar → Bool
  | .int i => !isOverlong i
  | _ => true

namespace Document

mutual

/-- No part of a value is a whole number with more digits than can be shown. -/
def isShowable : Document → Bool
  | .scalar s => s.isShowable
  | .sequence items | .tuple items => areShowable items
  | .members items => items.all Scalar.isShowable
  | .mapping entries => areShowableEntries entries
  | .loop _ d => d.isShowable

/-- All items can be shown. -/
def areShowable : List Document → Bool
  | [] => true
  | d :: ds => d.isShowable && areShowable ds

/-- All keys and values can be shown. -/
def areShowableEntries : List (Scalar × Document) → Bool
  | [] => true
  | (k, d) :: es => k.isShowable && d.isShowable && areShowableEntries es

end

/-- The text of a value by itself, if it can be shown. -/
def shownText (d : Document) : Except Fault String :=
  if d.isShowable then .ok d.display else .error .digitsShown

/-- The value as a floating number: numbers, truth values and numeral texts have one. -/
def toReal : Document → Except Fault Binary64
  | .scalar (.real x) => .ok x
  | .scalar (.int i) => realOfInt i
  | .scalar (.bool b) => .ok (if b then 1 else 0)
  | .scalar (.text s) =>
    match Binary64.read? s with
    | some x => .ok x
    | none => .error (.notReal s)
  | d => .error (.realKind d.kind)

/-- The whole number that a text writes; `literal` shows the text in a fault. -/
def wholeOfText (s literal : String) : Except Fault Int :=
  match readWhole? s with
  | some i => .ok i
  | none =>
    if digitLimit < digitCount s then .error (.digitsRead (digitCount s))
    else .error (.notWhole 10 literal)

/-- Octets as a text of ASCII characters; there are no record separators in numerals of octets. -/
def asciiText? (os : List Nat) : Option String :=
  if os.all fun o => o < 0x80 && !(0x1c ≤ o && o ≤ 0x1f) then
    some (String.ofList (os.map Char.ofNat))
  else none

/-- The value as a whole number: fractions are dropped, texts and octets must write a whole number.
-/
def toWhole : Document → Except Fault Int
  | .scalar (.int i) => .ok i
  | .scalar (.bool b) => .ok (if b then 1 else 0)
  | .scalar (.real x) => wholeOfReal x
  | .scalar (.text s) => wholeOfText s (quoted s)
  | .scalar (.octets os) =>
    match asciiText? os with
    | some s => wholeOfText s (Octets.display os)
    | none => .error (.notWhole 10 (Octets.display os))
  | d => .error (.wholeKind d.kind)

end Document

/-- A whole or floating number. -/
inductive Number
  | whole (i : Int)
  | real (x : Binary64)
  deriving DecidableEq

namespace Number

instance : Inhabited Number := ⟨.whole 0⟩

/-- The exact position of a number among all numbers and infinities. -/
def rank : Number → Option (Int × Int)
  | .whole i => some (0, i * Binary64.one)
  | .real x => x.rank

/-- The number stands in no relation to any other. -/
def isNaN (x : Number) : Bool := x.rank.isNone

/-- Exact comparison; what is no number stands in no relation. -/
def lt (x y : Number) : Bool :=
  match x.rank, y.rank with
  | some (a, m), some (b, n) => a < b || (a == b && m < n)
  | _, _ => false

def eq (x y : Number) : Bool :=
  match x.rank, y.rank with
  | some a, some b => a == b
  | _, _ => false

def le (x y : Number) : Bool := lt x y || eq x y

/-- The nearest floating number. -/
def toReal : Number → Except Fault Binary64
  | .whole i => realOfInt i
  | .real x => .ok x

/-- The quotient by a number that is not zero; whole numbers are divided exactly before the one
rounding. -/
def div : Number → Number → Except Fault Binary64
  | .whole i, .whole j =>
    let q := Binary64.ofQuotient (decide (i < 0) != decide (j < 0)) i.natAbs j.natAbs
    if q.isFinite then .ok q else .error .wholeToReal
  | x, y => do return (← x.toReal) / (← y.toReal)

/-- The product; of two whole numbers it is exact. -/
def mul : Number → Number → Except Fault Number
  | .whole i, .whole j => .ok (.whole (i * j))
  | x, y => do return .real ((← x.toReal) * (← y.toReal))

/-- The difference; of two whole numbers it is exact. -/
def sub : Number → Number → Except Fault Number
  | .whole i, .whole j => .ok (.whole (i - j))
  | x, y => do return .real ((← x.toReal) - (← y.toReal))

/-- The larger number; the first one unless the second is larger. -/
def max (x y : Number) : Number := if x.lt y then y else x

/-- The smaller number; the first one unless the second is smaller. -/
def min (x y : Number) : Number := if y.lt x then y else x

/-- The text of a number. -/
def display : Number → String
  | .whole i => toString i
  | .real x => x.text

/-- The number with a fixed count of decimal places. -/
def fixed (places : Nat) (x : Number) : Except Fault String := do
  return (← x.toReal).fixed places

/-- The number that a value is; a truth value counts as one or zero. -/
def ofDocument : Document → Except Fault Number
  | .scalar (.int i) => .ok (.whole i)
  | .scalar (.bool b) => .ok (.whole (if b then 1 else 0))
  | .scalar (.real x) => .ok (.real x)
  | d => .error (.realKind d.kind)

/-- A number as a document. -/
def toDocument : Number → Document
  | .whole i => .int i
  | .real x => .real x

end Number

end StillVideo
