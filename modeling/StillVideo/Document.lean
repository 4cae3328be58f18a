import StillVideo.Moment
import StillVideo.Number.Decimal
import StillVideo.Text.Octets

/-!
Documents: the values that a project file or a caller can supply.

A document is a scalar, a sequence, a tuple, a set or a mapping; the members of sets and the keys of
mappings are scalars and stand in the order of writing. A collection may hold itself. It is then
known by the text that shows it and by its content to a finite depth, which is deeper than any
reader looks. `Document.display` shows a value, `Document.literal` shows it as a part of another
one, with texts in quotes.
-/

namespace StillVideo

/-- A value without parts. -/
inductive Scalar
  | null
  | bool (b : Bool)
  | int (i : Int)
  | real (x : Binary64)
  | text (s : String)
  | octets (os : List Nat)
  | date (d : Date)
  | moment (m : Moment)
  deriving DecidableEq

instance : Inhabited Scalar := ⟨.null⟩

/-- A scalar or a collection. -/
inductive Document
  | scalar (s : Scalar)
  | sequence (items : List Document)
  | tuple (items : List Document)
  | members (items : List Scalar)
  | mapping (entries : List (Scalar × Document))
  | loop (shown : String) (content : Document)

/-- The name of the kind of a scalar in messages. -/
def Scalar.kind : Scalar → String
  | .null => "NoneType"
  | .bool _ => "bool"
  | .int _ => "int"
  | .real _ => "float"
  | .text _ => "str"
  | .octets _ => "bytes"
  | .date _ => "datetime.date"
  | .moment _ => "datetime.datetime"

/-- A scalar counts as given unless it is nothing, false, zero or empty. -/
def Scalar.isGiven : Scalar → Bool
  | .null => false
  | .bool b => b
  | .int i => i ≠ 0
  | .real x => !x.eq Binary64.zero
  | .text s => !s.isEmpty
  | .octets os => !os.isEmpty
  | .date _ | .moment _ => true

namespace Document

instance : Inhabited Document := ⟨.scalar .null⟩

/-- The value that stands for nothing. -/
@[match_pattern] abbrev null : Document := .scalar .null

@[match_pattern] abbrev bool (b : Bool) : Document := .scalar (.bool b)
@[match_pattern] abbrev int (i : Int) : Document := .scalar (.int i)
@[match_pattern] abbrev real (x : Binary64) : Document := .scalar (.real x)
@[match_pattern] abbrev text (s : String) : Document := .scalar (.text s)

/-- The value stands for nothing. -/
def isNull : Document → Bool
  | .scalar .null => true
  | _ => false

/-- A collection as it is seen from outside, whether it holds itself or not. -/
def bare : Document → Document
  | .loop _ d => d.bare
  | d => d

/-- The value under a text key. -/
def lookup (key : String) (entries : List (Scalar × Document)) : Option Document :=
  (entries.find? (·.1 == .text key)).map (·.2)

/-- The value under a text key; an absent key reads as nothing. -/
def field (key : String) (entries : List (Scalar × Document)) : Document :=
  (lookup key entries).getD null

/-- A text, or nothing. -/
def ofText? : Option String → Document
  | some s => text s
  | none => null

/-- The name of the kind of a value in messages. -/
def kind : Document → String
  | .scalar s => s.kind
  | .sequence _ => "list"
  | .tuple _ => "tuple"
  | .members _ => "set"
  | .mapping _ => "dict"
  | .loop _ d => d.kind

/-- A value counts as given unless it is nothing, false, zero or empty. -/
def isGiven : Document → Bool
  | .scalar s => s.isGiven
  | .sequence items | .tuple items => !items.isEmpty
  | .members items => !items.isEmpty
  | .mapping entries => !entries.isEmpty
  | .loop _ d => d.isGiven

end Document

/-- A scalar as a part of another value: texts stand in quotes. -/
def Scalar.literal : Scalar → String
  | .null => "None"
  | .bool true => "True"
  | .bool false => "False"
  | .int i => toString i
  | .real x => x.text
  | .text s => quoted s
  | .octets os => Octets.display os
  | .date d => d.literal
  | .moment m => m.literal

/-- A scalar by itself: a text stands without quotes, a date in figures. -/
def Scalar.display : Scalar → String
  | .text s => s
  | .date d => d.display
  | .moment m => m.display
  | s => s.literal

namespace Document

/-- The members of a set in braces; an empty one has a name of its own. -/
def literalMembers (items : List Scalar) : String :=
  if items.isEmpty then "set()"
  else "\x7b" ++ ", ".intercalate (items.map Scalar.literal) ++ "\x7d"

mutual

/-- A value as a part of another one. -/
def literal : Document → String
  | .scalar s => s.literal
  | .sequence items => "[" ++ literalItems items ++ "]"
  | .tuple [d] => "(" ++ d.literal ++ ",)"
  | .tuple items => "(" ++ literalItems items ++ ")"
  | .members items => literalMembers items
  | .mapping entries => "\x7b" ++ literalEntries entries ++ "\x7d"
  | .loop shown _ => shown

/-- The items of a sequence with commas between. -/
def literalItems : List Document → String
  | [] => ""
  | [d] => d.literal
  | d :: ds => d.literal ++ ", " ++ literalItems ds

/-- The entries of a mapping with commas between. -/
def literalEntries : List (Scalar × Document) → String
  | [] => ""
  | [(k, d)] => k.literal ++ ": " ++ d.literal
  | (k, d) :: es => k.literal ++ ": " ++ d.literal ++ ", " ++ literalEntries es

end

/-- The text of a value by itself. -/
def display : Document → String
  | .scalar s => s.display
  | d => d.literal

end Document

end StillVideo
