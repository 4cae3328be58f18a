import StillVideo.Number

/-!
The parts of values, and numbers written into texts.

A collection gives its items, a text its characters and a mapping its keys. Other values have no
parts, which is a fault of their kind.
-/

namespace StillVideo

/-- Two keys are the same: equal numbers and truth values are one key whatever their kind, and so
are moments that fall together. -/
def Scalar.same (a b : Scalar) : Bool :=
  match a, b with
  | .moment m, .moment n => m.same n
  | a, b =>
    match Number.ofDocument (.scalar a), Number.ofDocument (.scalar b) with
    | .ok x, .ok y => x.eq y
    | .error _, .error _ => a == b
    | _, _ => false

namespace Document

/-- The parts of a value in order, if it has parts. -/
def parts? : Document → Option (List Document)
  | .sequence items | .tuple items => some items
  | .members items => some (items.map .scalar)
  | .mapping entries => some (entries.map fun e => .scalar e.1)
  | .scalar (.text s) => some (s.toList.map fun c => .text (String.singleton c))
  | .scalar (.octets os) => some (os.map fun (o : Nat) => .int o)
  | .loop _ d => d.parts?
  | .scalar _ => none

/-- The parts of a value that is gone through. -/
def parts (d : Document) : Except Fault (List Document) :=
  match d.parts? with
  | some ds => .ok ds
  | none => .error (.uniterable d.kind)

/-- The parts of a value that is counted first. -/
def countedParts (d : Document) : Except Fault (List Document) :=
  match d.parts? with
  | some ds => .ok ds
  | none => .error (.lengthless d.kind)

/-- The parts of a value that may be left out. -/
def givenParts (d : Document) : Except Fault (List Document) :=
  if d.isGiven then d.parts else .ok []

/-- The first of some parts, if the value is asked for its parts by their places. -/
def firstOf (d : Document) (parts : List Document) : Except Fault Document :=
  match d.bare, parts with
  | .mapping _, _ => .error (.unknownWord "0")
  | _, first :: _ => .ok first
  | _, [] => .error .emptyScalar

/-- A value that can be a key. -/
def toKey : Document → Except Fault Scalar
  | .scalar s => .ok s
  | d => .error (.unhashable d.kind)

/-- A value that names a path. -/
def toPath : Document → Except Fault String
  | .scalar (.text s) => .ok s
  | d => .error (.pathKind d.kind)

/-- A number with a fixed count of decimal places, as it is written into a text. -/
def fixed (places : Nat) : Document → Except Fault String
  | .scalar (.text _) => .error (.formatCode "str")
  | d =>
    match Number.ofDocument d with
    | .ok x => x.fixed places
    | .error _ => .error (.formatKind d.kind)

end Document

end StillVideo
