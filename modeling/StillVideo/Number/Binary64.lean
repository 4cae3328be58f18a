/-!
Binary floating point of 64 bits.

A finite value is a sign and a whole number of units, where one unit is `2 ^ -1074`, the distance of
the two smallest magnitudes. Every operation computes its exact result as a quotient of whole
numbers and rounds once, to the nearest representable magnitude, a half going to the even
neighbour. The two zeros are told apart, infinities carry a sign and there is one value that is no
number.
-/

namespace StillVideo

-- Powers are those of the core library, whatever else is imported.
attribute [local instance (2000)] instPowNat

/-- `n / d` rounded to the nearest whole number, a half going to the even neighbour. -/
def roundDiv (n d : Nat) : Nat :=
  let q := n / d
  let r := n % d
  if 2 * r < d then q else if d < 2 * r then q + 1 else q + q % 2

namespace Binary64

/-- The binary places behind the point: a unit is `2 ^ -unitPlaces`. -/
def unitPlaces : Nat := 1074

/-- The binary places before the point. -/
def wholePlaces : Nat := 1024

/-- How many units make one. -/
def one : Nat := 2 ^ unitPlaces

/-- The least number of units that is too large for a finite value. -/
def bound : Nat := 2 ^ (unitPlaces + wholePlaces)

/-- The distance of neighbouring magnitudes at `u` units: magnitudes have 53 binary digits. -/
def spacing (u : Nat) : Nat := 2 ^ (u.log2 - 52)

/-- `u` units are a magnitude of the format. -/
def Representable (u : Nat) : Prop := u < bound ∧ u % spacing u = 0

instance (u : Nat) : Decidable (Representable u) := by unfold Representable; infer_instance

/-- `n / d` units rounded to 53 binary digits. -/
def roundUnits (n d : Nat) : Nat :=
  let step := spacing (n / d)
  roundDiv n (d * step) * step

theorem bound_pos : 0 < bound := Nat.two_pow_pos _

theorem representable_zero : Representable 0 :=
  ⟨bound_pos, Nat.zero_mod _⟩

end Binary64

open Binary64 in
/-- A floating point number: not a number, an infinity, or a sign with a magnitude. -/
inductive Binary64
  | nan
  | infinite (negative : Bool)
  | finite (negative : Bool) (units : Nat) (representable : Representable units)
  deriving DecidableEq

namespace Binary64

/-- Zero without a sign. -/
def zero : Binary64 := .finite false 0 representable_zero

instance : Inhabited Binary64 := ⟨zero⟩

/-- The signed magnitude if it is representable, else the infinity of that sign. -/
def ofUnits (negative : Bool) (u : Nat) : Binary64 :=
  if h : Representable u then .finite negative u h else .infinite negative

/-- The value nearest to `n / d` units. -/
def ofUnitQuotient (negative : Bool) (n d : Nat) : Binary64 :=
  ofUnits negative (roundUnits n d)

/-- The value nearest to `n / d`. -/
def ofQuotient (negative : Bool) (n d : Nat) : Binary64 :=
  ofUnitQuotient negative (one * n) d

/-- The value nearest to a whole number. -/
def ofInt (i : Int) : Binary64 := ofQuotient (i < 0) i.natAbs 1

/-- The value nearest to a natural number. -/
def ofNat (n : Nat) : Binary64 := ofQuotient false n 1

instance (n : Nat) : OfNat Binary64 n := ⟨ofNat n⟩

/-- Neither an infinity nor the value that is no number. -/
def isFinite : Binary64 → Bool
  | .finite .. => true
  | _ => false

def isNaN : Binary64 → Bool
  | .nan => true
  | _ => false

/-- The units with their sign; zero for a value that is not finite. -/
def signedUnits : Binary64 → Int
  | .finite true u _ => -u
  | .finite false u _ => u
  | _ => 0

/-! ## Arithmetic -/

def neg : Binary64 → Binary64
  | .nan => .nan
  | .infinite s => .infinite !s
  | .finite s u h => .finite (!s) u h

/-- Equal infinities add up, opposite ones to no number; a sum of zeros is negative only if both
are. -/
def add : Binary64 → Binary64 → Binary64
  | .nan, _ | _, .nan => .nan
  | .infinite s, .infinite t => if s = t then .infinite s else .nan
  | .infinite s, .finite .. => .infinite s
  | .finite .., .infinite t => .infinite t
  | x@(.finite s _ _), y@(.finite t _ _) =>
    let sum := x.signedUnits + y.signedUnits
    if sum = 0 then ofUnits (s && t) 0 else ofUnitQuotient (sum < 0) sum.natAbs 1

def sub (x y : Binary64) : Binary64 := add x y.neg

def mul : Binary64 → Binary64 → Binary64
  | .nan, _ | _, .nan => .nan
  | .infinite s, .infinite t => .infinite (s != t)
  | .infinite s, .finite t u _ | .finite t u _, .infinite s =>
    if u = 0 then .nan else .infinite (s != t)
  | .finite s u _, .finite t v _ => ofUnitQuotient (s != t) (u * v) one

/-- A quotient by zero is an infinity, or no number if zero is divided. -/
def div : Binary64 → Binary64 → Binary64
  | .nan, _ | _, .nan => .nan
  | .infinite _, .infinite _ => .nan
  | .infinite s, .finite t _ _ => .infinite (s != t)
  | .finite s _ _, .infinite t => ofUnits (s != t) 0
  | .finite s u _, .finite t v _ =>
    if v = 0 then if u = 0 then .nan else .infinite (s != t)
    else ofUnitQuotient (s != t) (one * u) v

instance : Neg Binary64 := ⟨neg⟩
instance : Add Binary64 := ⟨add⟩
instance : Sub Binary64 := ⟨sub⟩
instance : Mul Binary64 := ⟨mul⟩
instance : Div Binary64 := ⟨div⟩

/-! ## Order

What is no number stands in no order relation, not even to itself; the two zeros are equal. -/

/-- Where a value stands on the extended line of units: below, on or above the whole numbers. -/
def rank : Binary64 → Option (Int × Int)
  | .nan => none
  | .infinite true => some (-1, 0)
  | .infinite false => some (1, 0)
  | x@(.finite ..) => some (0, x.signedUnits)

def lt (x y : Binary64) : Bool :=
  match x.rank, y.rank with
  | some (a, m), some (b, n) => a < b || (a == b && m < n)
  | _, _ => false

/-- Equality of values: what is no number equals nothing. -/
def eq (x y : Binary64) : Bool :=
  match x.rank, y.rank with
  | some a, some b => a == b
  | _, _ => false

def le (x y : Binary64) : Bool := lt x y || eq x y

/-! ## Whole numbers -/

/-- The whole number left when the fraction is dropped; `none` for a value that is not finite. -/
def truncate? : Binary64 → Option Int
  | .finite s u _ => some (if s then -((u / one : Nat) : Int) else ((u / one : Nat) : Int))
  | _ => none

/-- The least whole number that is not below the value; `none` for a value that is not finite. -/
def ceil? : Binary64 → Option Int
  | .finite s u _ =>
    some (if s then -((u / one : Nat) : Int) else (((u + (one - 1)) / one : Nat) : Int))
  | _ => none

/-- The nearest whole number, a half going to the even neighbour. -/
def round? : Binary64 → Option Int
  | .finite s u _ =>
    some (if s then -((roundDiv u one : Nat) : Int) else ((roundDiv u one : Nat) : Int))
  | _ => none

end Binary64

end StillVideo
