import StillVideo.Document.Parts

/-!
The order in which a set shows its members.

Numbers are spread over a table by their residues and shown in the order of their places. A place
that is taken is followed by a few neighbours, then by jumps that bring in the higher bits of the
residue. Members of other kinds are shown as they were written.
-/

namespace StillVideo.Yaml.Members

-- Powers are those of the core library, whatever else is imported.
attribute [local instance (2000)] instPowNat

/-- The modulus of residues. -/
def modulus : Nat := 2 ^ (61 : Nat) - 1

/-- The residue of infinity. -/
def infiniteResidue : Int := 314159

/-- The residue of a number: `units` counts the smallest steps between floating numbers, of which
there are `2 ^ 1074` in a one. Minus one is no residue. -/
def residueOfUnits (units : Int) : Int :=
  let r : Int := (units.natAbs * 2 ^ ((61 - Binary64.unitPlaces % 61) % 61) % modulus : Nat)
  let signed := if units < 0 then -r else r
  if signed = -1 then -2 else signed

/-- The residue of a scalar that is a number. -/
def residue? (s : Scalar) : Option Int :=
  match Number.ofDocument (.scalar s) with
  | .error _ => none
  | .ok x =>
    x.rank.map fun r => if r.1 = 0 then residueOfUnits r.2 else r.1.sign * infiniteResidue

/-- The bits of a residue in a word. -/
def wordOf (residue : Int) : Nat := (Int.emod residue (2 ^ (64 : Nat))).toNat

/-- How many neighbours of a place are tried before a jump. -/
def neighbours : Nat := 9

/-- The size of a table for `count` members: a power of two, of which at most three fifths are
taken. -/
def tableSize (count : Nat) : Nat := if count < 5 then 8 else 2 ^ ((2 * count).log2 + 1)

/-- The first free place for a residue, starting at `place`; `higher` are the bits yet to be brought
in. -/
def freePlace {α : Type} (table : Array (Option α)) : Nat → Nat → Nat → Nat
  | 0, place, _ => place
  | n + 1, place, higher =>
    let run := if place + neighbours < table.size then neighbours + 1 else 1
    match (List.range run).find? fun d => (table.getD (place + d) none).isNone with
    | some d => place + d
    | none =>
      let higher := higher / 32
      freePlace table n ((place * 5 + 1 + higher) % table.size) higher

/-- Puts a member at the first free place for its residue. -/
def put {α : Type} (table : Array (Option α)) (member : α × Int) : Array (Option α) :=
  let word := wordOf member.2
  let place := freePlace table (2 * table.size + 16) (word % table.size) word
  table.setIfInBounds place (some member.1)

/-- The members of a set in the order in which they are shown. -/
def arrange (items : List Scalar) : List Scalar :=
  match items.mapM fun s => (residue? s).map fun r => (s, r) with
  | some members =>
    (members.foldl put (Array.replicate (tableSize items.length) none)).toList.filterMap id
  | none => items

end StillVideo.Yaml.Members
