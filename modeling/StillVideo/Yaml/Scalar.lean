import StillVideo.Yaml.Cursor

/-!
The texts of scalars: quoted over several lines, plain over several lines, and in blocks that keep
or fold their lines. Each function reads from a cursor behind the first indicator and gives the text
and the cursor behind it.
-/

namespace StillVideo.Yaml

-- Powers are those of the core library, whatever else is imported.
attribute [local instance (2000)] instPowNat

/-- Why a document text cannot be read: it is no document, or one of its scalars writes no value of
the kind that it announces. -/
inductive TextFault
  | malformed
  | conversion (f : Fault)

abbrev Result := Except TextFault

/-- The text is not a document. -/
def malformed {α : Type} : Result α := .error .malformed

def isHexDigit (c : Char) : Bool :=
  c.isDigit || ('a' ≤ c && c ≤ 'f') || ('A' ≤ c && c ≤ 'F')

/-- The value of a hexadecimal digit. -/
def hexValue (c : Char) : Nat :=
  if c.isDigit then c.toNat - 48 else (smallLetter c).toNat - 87

/-- The number that hexadecimal digits write. -/
def hexNumber (cs : List Char) : Nat := cs.foldl (fun n c => n * 16 + hexValue c) 0

/-- The characters written by a backslash and one letter. -/
def escapes : List (Char × Char) :=
  [('0', '\x00'), ('a', '\x07'), ('b', '\x08'), ('t', '\t'), ('\t', '\t'), ('n', '\n'),
   ('v', '\x0b'), ('f', '\x0c'), ('r', '\r'), ('e', '\x1b'), (' ', ' '), ('"', '"'),
   ('\\', '\\'), ('/', '/'), ('N', '\x85'), ('_', '\xa0'), ('L', '\u2028'), ('P', '\u2029')]

/-- How many hexadecimal digits follow a backslash and this letter. -/
def escapeWidth? (c : Char) : Option Nat :=
  if c == 'x' then some 2 else if c == 'u' then some 4 else if c == 'U' then some 8 else none

/-! ## Quoted scalars -/

/-- Empty lines inside a quoted text; white space at their beginning does not count. -/
def quotedBreaks : Nat → Cursor → Result (List Char × Cursor)
  | 0, _ => malformed
  | n + 1, c =>
    if c.atSeparator then malformed
    else
      let c := c.skipWhile fun a => a == ' ' || a == '\t'
      if isBreak c.peek then do
        let (b, c) := c.takeBreak
        let (bs, c) ← quotedBreaks n c
        return (b ++ bs, c)
      else return ([], c)

/-- A backslash with what follows it. -/
def quotedEscape (c : Cursor) : Result (List Char × Cursor) := do
  let c := c.step
  match escapes.lookup c.peek with
  | some a => return ([a], c.step)
  | none =>
    match escapeWidth? c.peek with
    | some width =>
      let c := c.step
      let digits := c.rest.take width
      if digits.length < width || !digits.all isHexDigit then malformed
      else
        let n := hexNumber digits
        if n ≤ 0x10ffff then return ([charOfCode n], c.skip width)
        else if c.isBlocked (width - 1) then malformed
        else .error (.conversion (if n < 2 ^ (31 : Nat) then .codePoint else .codePointWord))
    | none =>
      if isBreak c.peek then
        let (_, c) := c.takeBreak
        quotedBreaks c.fuel c
      else malformed

/-- A stretch of a quoted text without unescaped white space. -/
def quotedWord (double : Bool) : Nat → Cursor → Result (List Char × Cursor)
  | 0, _ => malformed
  | n + 1, c => do
    let plain := c.span fun a => !(a == '\'' || a == '"' || a == '\\' || isWideGap a)
    let c := c.skip plain.length
    let a := c.peek
    if !double && a == '\'' && c.peekAt 1 == '\'' then
      let (more, c) ← quotedWord double n (c.skip 2)
      return (plain ++ '\'' :: more, c)
    else if (double && a == '\'') || (!double && (a == '"' || a == '\\')) then
      let (more, c) ← quotedWord double n c.step
      return (plain ++ a :: more, c)
    else if double && a == '\\' then
      let (escaped, c) ← quotedEscape c
      let (more, c) ← quotedWord double n c
      return (plain ++ escaped ++ more, c)
    else return (plain, c)

/-- White space inside a quoted text: kept within a line, folded at the end of one. -/
def quotedSpace (c : Cursor) : Result (List Char × Cursor) := do
  let spaces := c.span fun a => a == ' ' || a == '\t'
  let c := c.skip spaces.length
  if c.peek == '\x00' then malformed
  else if isBreak c.peek then
    let (b, c) := c.takeBreak
    let (bs, c) ← quotedBreaks c.fuel c
    if b != ['\n'] then return (b ++ bs, c)
    else if bs.isEmpty then return ([' '], c)
    else return (bs, c)
  else return (spaces, c)

/-- The rest of a quoted text up to its closing quote. -/
def quotedRest (quote : Char) : Nat → Cursor → Result (List Char × Cursor)
  | 0, _ => malformed
  | n + 1, c =>
    if c.peek == quote then return ([], c.step)
    else do
      let (space, c) ← quotedSpace c
      let (word, c) ← quotedWord (quote == '"') c.fuel c
      let (more, c) ← quotedRest quote n c
      return (space ++ word ++ more, c)

/-- A quoted scalar, from its opening quote. -/
def quotedScalar (c : Cursor) : Result (List Char × Cursor) := do
  let quote := c.peek
  let (word, c) ← quotedWord (quote == '"') c.fuel c.step
  let (more, c) ← quotedRest quote c.fuel c
  return (word ++ more, c)

/-! ## Plain scalars -/

/-- The place of a plain scalar: inside brackets, and the least column of its further lines. -/
structure PlainContext where
  flow : Bool
  indent : Int

/-- The length of the next stretch of a plain scalar. A colon ends it before a gap, and inside
brackets any indicator of brackets ends it. -/
def plainLength (flow : Bool) : List Char → Nat
  | [] => 0
  | a :: rest =>
    let next := rest.headD '\x00'
    let flowIndicator := fun (x : Char) =>
      x == ',' || x == '[' || x == ']' || x == '\x7b' || x == '\x7d'
    if isWideGap a || (a == ':' && (isWideGap next || (flow && flowIndicator next))) ||
        (flow && (flowIndicator a || a == '?')) then 0
    else plainLength flow rest + 1

/-- The empty lines after a line of a plain scalar; nothing if a separator follows. -/
def plainBreaks : Nat → Cursor → Option (List Char) × Cursor
  | 0, c => (some [], c)
  | n + 1, c =>
    let c := c.skipWhile (· == ' ')
    if isBreak c.peek then
      let (b, c) := c.takeBreak
      if c.atSeparator then (none, c)
      else
        let (bs, c) := plainBreaks n c
        (bs.map (b ++ ·), c)
    else (some [], c)

/-- What stands between two stretches of a plain scalar, and whether a line ended there. -/
def plainSpace (c : Cursor) : List Char × Bool × Cursor :=
  let spaces := c.span (· == ' ')
  let c := c.skip spaces.length
  if isBreak c.peek then
    let (b, c) := c.takeBreak
    if c.atSeparator then ([], true, c)
    else
      match plainBreaks c.fuel c with
      | (none, c) => ([], true, c)
      | (some bs, c) =>
        (if b != ['\n'] then b ++ bs else if bs.isEmpty then [' '] else bs, true, c)
  else (spaces, false, c)

/-- A plain scalar, its text, whether the last line break stands behind it, and what follows. -/
def plainScalar (x : PlainContext) : Nat → List Char → Bool → Cursor → List Char × Bool × Cursor
  | 0, _, broken, c => ([], broken, c)
  | n + 1, spaces, broken, c =>
    if c.peek == '#' then ([], broken, c)
    else
      let length := plainLength x.flow c.rest
      if length = 0 then ([], broken, c)
      else
        let word := c.rest.take length
        let (space, broken, c) := plainSpace (c.skip length)
        if space.isEmpty || c.peek == '#' || (!x.flow && (c.column : Int) < x.indent) then
          (spaces ++ word, broken, c)
        else
          let (more, broken, c) := plainScalar x n space broken c
          (spaces ++ word ++ more, broken, c)

/-! ## Block scalars -/

/-- What happens to the line ends at the end of a block: one is kept, all are kept, or none. -/
inductive Chomping
  | clip | keep | strip
  deriving DecidableEq

/-- A digit that gives the indentation of a block; zero gives none. -/
def indentDigit? (c : Char) : Option Nat := if c.isDigit then some (c.toNat - 48) else none

def chomping? (c : Char) : Option Chomping :=
  if c == '+' then some .keep else if c == '-' then some .strip else none

/-- The indicators behind the first one of a block, in either order. -/
def blockHeader (c : Cursor) : Result (Chomping × Option Nat × Cursor) := do
  let (chomping, increment, c) :=
    match chomping? c.peek with
    | some k =>
      let c := c.step
      match indentDigit? c.peek with
      | some i => (k, some i, c.step)
      | none => (k, none, c)
    | none =>
      match indentDigit? c.peek with
      | some i =>
        let c := c.step
        match chomping? c.peek with
        | some k => (k, some i, c.step)
        | none => (.clip, some i, c)
      | none => (.clip, none, c)
  if increment == some 0 || !isGap c.peek then malformed
  else return (chomping, increment, c)

/-- The rest of a line that holds nothing but a comment. -/
def ignoredLine (c : Cursor) : Result Cursor :=
  let c := c.skipWhile (· == ' ')
  let c := if c.peek == '#' then c.skipWhile (!isLineEnd ·) else c
  if isLineEnd c.peek then return c.takeBreak.2 else malformed

/-- The empty lines before a block and the deepest indentation among them. -/
def blockIndentation : Nat → Nat → Cursor → List Char × Nat × Cursor
  | 0, deepest, c => ([], deepest, c)
  | n + 1, deepest, c =>
    if c.peek == ' ' then
      let c := c.step
      blockIndentation n (max deepest c.column) c
    else if isBreak c.peek then
      let (b, c) := c.takeBreak
      let (bs, deepest, c) := blockIndentation n deepest c
      (b ++ bs, deepest, c)
    else ([], deepest, c)

/-- Past the spaces up to a column. -/
def skipIndent (indent : Nat) : Nat → Cursor → Cursor
  | 0, c => c
  | n + 1, c => if c.column < indent && c.peek == ' ' then skipIndent indent n c.step else c

/-- The empty lines inside a block. -/
def blockBreaks (indent : Nat) : Nat → Cursor → List Char × Cursor
  | 0, c => ([], c)
  | n + 1, c =>
    let c := skipIndent indent c.fuel c
    if isBreak c.peek then
      let (b, c) := c.takeBreak
      let (bs, c) := blockBreaks indent n c
      (b ++ bs, c)
    else ([], c)

/-- The lines of a block: its text so far, the last line end, and the empty lines behind it. A
folded block joins neighbouring lines that begin with no white space. -/
def blockLines (folded : Bool) (indent : Nat) :
    Nat → List Char → List Char → Cursor → List Char × List Char × List Char × Cursor
  | 0, breaks, lineBreak, c => ([], lineBreak, breaks, c)
  | n + 1, breaks, lineBreak, c =>
    if c.column == indent && c.peek != '\x00' then
      let flush := fun (a : Char) => !(a == ' ' || a == '\t')
      let leading := flush c.peek
      let line := c.span (!isLineEnd ·)
      let (b, c) := (c.skip line.length).takeBreak
      let (bs, c) := blockBreaks indent c.fuel c
      if c.column == indent && c.peek != '\x00' then
        let joint :=
          if folded && b == ['\n'] && leading && flush c.peek then
            if bs.isEmpty then [' '] else []
          else b
        let (more, last, tail, c) := blockLines folded indent n bs b c
        (breaks ++ line ++ joint ++ more, last, tail, c)
      else (breaks ++ line, b, bs, c)
    else ([], lineBreak, breaks, c)

/-- A block scalar, from its first indicator. `indent` is the column of the surrounding block. -/
def blockScalar (indent : Int) (c : Cursor) : Result (List Char × Cursor) := do
  let folded := c.peek == '>'
  let (chomping, increment, c) ← blockHeader c.step
  let c ← ignoredLine c
  let least := (max (indent + 1) 1).toNat
  let (column, breaks, c) :=
    match increment with
    | none =>
      let (bs, deepest, c) := blockIndentation c.fuel 0 c
      (max least deepest, bs, c)
    | some i =>
      let column := least + i - 1
      let (bs, c) := blockBreaks column c.fuel c
      (column, bs, c)
  let (text, last, tail, c) := blockLines folded column c.fuel breaks [] c
  let text := if chomping == .strip then text else text ++ last
  return (if chomping == .keep then text ++ tail else text, c)

end StillVideo.Yaml
