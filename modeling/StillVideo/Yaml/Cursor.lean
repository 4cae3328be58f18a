import StillVideo.Number

/-!
A position in a document text.

Lines end at a line feed, a carriage return, a next-line control or one of the two Unicode
separators. Beyond the end of the text stands the character zero, which no document may contain.

A text is handed over in pieces, and a piece that holds a character that no document may contain is
not handed over at all. What goes wrong before that piece is needed is found first.
-/

namespace StillVideo.Yaml

/-- The remaining text and the place where it begins. From the index `limit` on nothing is handed
over. -/
structure Cursor where
  rest : List Char
  index : Nat
  line : Nat
  column : Nat
  limit : Nat

/-- A character that ends a line. -/
def isBreak (c : Char) : Bool :=
  c == '\n' || c == '\r' || c == '\x85' || c == '\u2028' || c == '\u2029'

/-- The end of the text or of a line. -/
def isLineEnd (c : Char) : Bool := c == '\x00' || isBreak c

/-- The end of the text or of a line, or a space. -/
def isGap (c : Char) : Bool := c == ' ' || isLineEnd c

/-- The end of the text or of a line, a space or a tab. -/
def isWideGap (c : Char) : Bool := c == '\t' || isGap c

/-- Letters, digits, hyphen and underscore make up names. -/
def isNameChar (c : Char) : Bool := c.isAlphanum || c == '-' || c == '_'

/-- Characters that a document may contain. -/
def isAllowed (c : Char) : Bool :=
  let n := c.toNat
  n == 0x09 || n == 0x0a || n == 0x0d || (0x20 ≤ n && n ≤ 0x7e) || n == 0x85 ||
    (0xa0 ≤ n && n ≤ 0xd7ff) || (0xe000 ≤ n && n ≤ 0xfffd) ||
    (0x10000 ≤ n && (surrogate? c).isNone)

/-- The lengths of the first piece of a text and of the further ones. -/
def firstPiece : Nat := 8192
def furtherPiece : Nat := 4096

/-- The beginning of the piece that holds an index. -/
def pieceStart (i : Nat) : Nat :=
  if i < firstPiece then 0 else firstPiece + (i - firstPiece) / furtherPiece * furtherPiece

/-- The index from which on a text is not handed over; beyond its end if all of it is. -/
def readLimit (cs : List Char) : Nat :=
  let i := (cs.takeWhile isAllowed).length
  if i = cs.length then i + 2 else pieceStart i

namespace Cursor

/-- The beginning of a text. -/
def ofText (s : String) : Cursor := ⟨s.toList, 0, 0, 0, readLimit s.toList⟩

/-- The character `k` places ahead is not handed over. -/
def isBlocked (c : Cursor) (k : Nat) : Bool := c.limit ≤ c.index + k

/-- The character `k` places ahead. -/
def peekAt (c : Cursor) (k : Nat) : Char := c.rest.getD k '\x00'

/-- The next character. -/
def peek (c : Cursor) : Char := c.peekAt 0

/-- Past one character. A carriage return before a line feed ends no line of its own, and a byte
order mark takes no column. -/
def step (c : Cursor) : Cursor :=
  match c.rest with
  | [] => c
  | a :: rest =>
    let ends := isBreak a && !(a == '\r' && rest.head? == some '\n')
    if ends then { c with rest, index := c.index + 1, line := c.line + 1, column := 0 }
    else
      let column := if a == '\uFEFF' then c.column else c.column + 1
      { c with rest, index := c.index + 1, column }

/-- Past `n` characters. -/
def skip (c : Cursor) : Nat → Cursor
  | 0 => c
  | n + 1 => c.step.skip n

/-- The next characters that satisfy `p`. -/
def span (c : Cursor) (p : Char → Bool) : List Char := c.rest.takeWhile p

/-- Past the next characters that satisfy `p`. -/
def skipWhile (c : Cursor) (p : Char → Bool) : Cursor := c.skip (c.span p).length

/-- The end of a line as it counts in a text, and the position behind it. All ends of line read as
a line feed, but the two Unicode separators stand for themselves. -/
def takeBreak (c : Cursor) : List Char × Cursor :=
  match c.rest with
  | '\r' :: '\n' :: _ => (['\n'], c.skip 2)
  | a :: _ =>
    if a == '\n' || a == '\r' || a == '\x85' then (['\n'], c.step)
    else if isBreak a then ([a], c.step)
    else ([], c)
  | [] => ([], c)

/-- A document separator stands here, three hyphens or three points before a gap. -/
def atSeparator (c : Cursor) : Bool :=
  match c.rest.take 3 with
  | ['-', '-', '-'] | ['.', '.', '.'] => isWideGap (c.peekAt 3)
  | _ => false

/-- How many steps can be taken at most. -/
def fuel (c : Cursor) : Nat := c.rest.length + 1

end Cursor

end StillVideo.Yaml
