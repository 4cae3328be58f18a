import StillVideo.Yaml.Scalar

/-!
Tokens of a document text.

Blocks are made visible: where the indentation grows a token opens a block, where it shrinks tokens
close blocks. A key without an indicator is recognised by the colon behind it, so the position of a
possible key is remembered, one for each level of brackets, and its token is inserted later.

Tokens are made when somebody asks for them and not earlier, except that a token that may be a key
waits until it is known whether it is one.
-/

namespace StillVideo.Yaml

/-- What a line that begins with a percent sign declares. -/
inductive Directive
  | version (major : Nat)
  | tag (handle lead : String)
  | other
  deriving DecidableEq, Repr

/-- The tokens of a document. A tag has a handle unless it was written out. -/
inductive Token
  | streamEnd
  | directive (d : Directive)
  | documentStart
  | documentEnd
  | blockSequenceStart
  | blockMappingStart
  | blockEnd
  | flowSequenceStart
  | flowSequenceEnd
  | flowMappingStart
  | flowMappingEnd
  | blockEntry
  | flowEntry
  | key
  | value
  | alias (name : String)
  | anchor (name : String)
  | tag (handle : Option String) (suffix : String)
  | scalar (text : String) (plain : Bool)
  deriving DecidableEq, Repr

/-! ## Names, tags and directives -/

/-- A name of letters, digits, hyphens and underscores, which must not be empty. -/
def readName (c : Cursor) : Result (String × Cursor) :=
  let name := c.span isNameChar
  if name.isEmpty then malformed else return (String.ofList name, c.skip name.length)

/-- The name of an anchor or alias, and what may follow it. -/
def readAnchorName (c : Cursor) : Result (String × Cursor) := do
  let (name, c) ← readName c
  let a := c.peek
  if isWideGap a || "?:,]\x7d%@\x60".toList.contains a then return (name, c) else malformed

def isUriChar (c : Char) : Bool :=
  c.isAlphanum || "-;/?:@&=+$,_.!~*'()[]%".toList.contains c

/-- Bytes written by percent signs, as the text that they encode. -/
def escapedBytes : Nat → Cursor → Result (List UInt8 × Cursor)
  | 0, _ => malformed
  | n + 1, c =>
    if c.peek == '%' then
      let digits := c.step.rest.take 2
      if digits.length < 2 || !digits.all isHexDigit then malformed
      else do
        let (more, c) ← escapedBytes n (c.skip 3)
        return ((hexNumber digits).toUInt8 :: more, c)
    else return ([], c)

/-- The characters of a tag; escaped bytes must form characters. -/
def readUriRest : Nat → Cursor → Result (List Char × Cursor)
  | 0, _ => malformed
  | n + 1, c => do
    let plain := c.span fun a => isUriChar a && a != '%'
    let c := c.skip plain.length
    if c.peek == '%' then
      let (bytes, c) ← escapedBytes c.fuel c
      match String.fromUTF8? (ByteArray.mk bytes.toArray) with
      | some s =>
        let (more, c) ← readUriRest n c
        return (plain ++ s.toList ++ more, c)
      | none => malformed
    else return (plain, c)

/-- The characters of a tag, at least one. -/
def readUri (c : Cursor) : Result (String × Cursor) :=
  if isUriChar c.peek then do
    let (text, c) ← readUriRest c.fuel c
    return (String.ofList text, c)
  else malformed

/-- A tag handle: an exclamation mark, or a name between two of them. -/
def readHandle (c : Cursor) : Result (String × Cursor) :=
  if c.peek != '!' then malformed
  else if c.peekAt 1 == ' ' then return ("!", c.step)
  else
    let name := c.step.span isNameChar
    if c.peekAt (name.length + 1) == '!' then
      return ("!" ++ String.ofList name ++ "!", c.skip (name.length + 2))
    else malformed

/-- An exclamation mark stands in the tag before the next gap. -/
def usesHandle : List Char → Bool
  | [] => false
  | a :: rest => if isGap a then false else a == '!' || usesHandle rest

/-- A tag, from its exclamation mark. -/
def readTag (c : Cursor) : Result (Token × Cursor) := do
  let (token, c) ←
    if c.peekAt 1 == '<' then do
      let (suffix, c) ← readUri (c.skip 2)
      if c.peek == '>' then pure (Token.tag none suffix, c.step) else malformed
    else if isWideGap (c.peekAt 1) then pure (Token.tag none "!", c.step)
    else do
      let (handle, c) ← if usesHandle c.step.rest then readHandle c else pure ("!", c.step)
      let (suffix, c) ← readUri c
      pure (Token.tag (some handle) suffix, c)
  if isGap c.peek then return (token, c) else malformed

/-- A row of digits. -/
def readNumber (c : Cursor) : Result (Nat × Cursor) :=
  let digits := c.span Char.isDigit
  if digits.isEmpty then malformed
  else if digitLimit < digits.length then
    if c.isBlocked digits.length then malformed
    else .error (.conversion (.digitsRead digits.length))
  else return (digitsValue digits, c.skip digits.length)

/-- A directive, from its percent sign. -/
def readDirective (c : Cursor) : Result (Token × Cursor) := do
  let (name, c) ← readName c.step
  if !isGap c.peek then malformed
  else
    let (d, c) ←
      if name == "YAML" then do
        let (major, c) ← readNumber (c.skipWhile (· == ' '))
        if c.peek != '.' then malformed
        else
          let (_, c) ← readNumber c.step
          if isGap c.peek then pure (Directive.version major, c) else malformed
      else if name == "TAG" then do
        let (handle, c) ← readHandle (c.skipWhile (· == ' '))
        if c.peek != ' ' then malformed
        else
          let (lead, c) ← readUri (c.skipWhile (· == ' '))
          if isGap c.peek then pure (Directive.tag handle lead, c) else malformed
      else pure (Directive.other, c.skipWhile (!isLineEnd ·))
    return (.directive d, ← ignoredLine c)

/-! ## The lexer -/

/-- A token that turns out to be a key if a colon follows it: where it stands in the list of
tokens and in the text, and whether it must be one. -/
structure PossibleKey where
  token : Nat
  required : Bool
  index : Nat
  line : Nat
  column : Nat

/-- The state between two tokens: the tokens so far and how many of them have been taken, the depth
of brackets, the indentation of the open blocks, whether a key may begin here, and the possible keys
by depth of brackets. -/
structure Lexer where
  cursor : Cursor
  tokens : Array Token
  taken : Nat
  depth : Nat
  indent : Int
  outer : List Int
  keyAllowed : Bool
  keys : List (Nat × PossibleKey)

namespace Lexer

/-- The state at the beginning of a text. -/
def start (s : String) : Lexer := ⟨Cursor.ofText s, #[], 0, 0, -1, [], true, []⟩

def push (x : Lexer) (t : Token) : Lexer := { x with tokens := x.tokens.push t }

/-- Inserts a token before the token of a key. -/
def insert (x : Lexer) (i : Nat) (t : Token) : Lexer :=
  { x with tokens := x.tokens.insertIdxIfInBounds i t }

def column (x : Lexer) : Int := x.cursor.column

/-- Past `n` characters. -/
def advance (x : Lexer) (n : Nat) : Lexer := { x with cursor := x.cursor.skip n }

/-- Past spaces, comments and line ends. A new line outside brackets may begin with a key. -/
def skipBlanks : Nat → Lexer → Lexer
  | 0, x => x
  | n + 1, x =>
    let c := x.cursor.skipWhile (· == ' ')
    let c := if c.peek == '#' then c.skipWhile (!isLineEnd ·) else c
    if isBreak c.peek then
      skipBlanks n { x with cursor := c.takeBreak.2, keyAllowed := x.keyAllowed || x.depth == 0 }
    else { x with cursor := c }

/-- Past what separates tokens; a byte order mark may begin the text. -/
def toNextToken (x : Lexer) : Lexer :=
  let c := x.cursor
  let c := if c.index == 0 && c.peek == '\uFEFF' then c.step else c
  skipBlanks c.fuel { x with cursor := c }

/-- A key ends on its line and within 1024 characters. -/
def isStale (x : Lexer) (k : PossibleKey) : Bool :=
  k.line != x.cursor.line || 1024 < x.cursor.index - k.index

/-- Forgets the possible keys that can no longer be keys; none of them may be required. -/
def dropStale (x : Lexer) : Result Lexer :=
  if x.keys.any fun k => x.isStale k.2 && k.2.required then malformed
  else return { x with keys := x.keys.filter fun k => !x.isStale k.2 }

/-- The possible key at this depth of brackets. -/
def key? (x : Lexer) : Option PossibleKey := (x.keys.find? (·.1 == x.depth)).map (·.2)

/-- Forgets the possible key at this depth without question. -/
def forgetKey (x : Lexer) : Lexer := { x with keys := x.keys.filter (·.1 != x.depth) }

/-- Forgets the possible key at this depth, which must not be required. -/
def dropKey (x : Lexer) : Result Lexer :=
  match x.key? with
  | some k => if k.required then malformed else return x.forgetKey
  | none => return x

/-- Remembers that the next token may be a key. -/
def saveKey (x : Lexer) : Result Lexer :=
  if x.keyAllowed then do
    let y ← x.dropKey
    let required := x.depth == 0 && x.indent == x.column
    let k : PossibleKey :=
      ⟨x.tokens.size, required, x.cursor.index, x.cursor.line, x.cursor.column⟩
    return { y with keys := (x.depth, k) :: y.keys }
  else return x

/-- Closes the blocks that are indented deeper than `column`. -/
def closeBlocks (column : Int) : List Int → Lexer → Lexer
  | [], x => x
  | outer :: rest, x =>
    if column < x.indent then
      closeBlocks column rest { x.push .blockEnd with indent := outer, outer := rest }
    else x

/-- Closes blocks outside brackets; inside brackets indentation does not count. -/
def unwind (x : Lexer) (column : Int) : Lexer :=
  if x.depth == 0 then closeBlocks column x.outer x else x

/-- Whether a block begins at `column`, and the state in which it is open. -/
def openBlock (x : Lexer) (column : Int) : Bool × Lexer :=
  if x.indent < column then (true, { x with indent := column, outer := x.indent :: x.outer })
  else (false, x)

/-- A token that stands at the beginning of a line and ends all blocks. -/
def atMargin (x : Lexer) : Result Lexer := do
  let x ← (x.unwind (-1)).dropKey
  return { x with keyAllowed := false }

/-- A separator of documents. -/
def separator (x : Lexer) (t : Token) : Result Lexer := do
  return (← x.atMargin).advance 3 |>.push t

/-- An opening bracket. -/
def openFlow (x : Lexer) (t : Token) : Result Lexer := do
  let x ← x.saveKey
  return { x with depth := x.depth + 1, keyAllowed := true }.advance 1 |>.push t

/-- A closing bracket. -/
def closeFlow (x : Lexer) (t : Token) : Result Lexer := do
  let x ← x.dropKey
  return { x with depth := x.depth - 1, keyAllowed := false }.advance 1 |>.push t

/-- A comma between brackets. -/
def flowEntry (x : Lexer) : Result Lexer := do
  let x ← { x with keyAllowed := true }.dropKey
  return x.advance 1 |>.push .flowEntry

/-- Opens a block at the current column, announced by `t`, if the indentation grows. A key or an
entry must be allowed here. -/
def beginBlock (x : Lexer) (t : Token) : Result Lexer :=
  if x.depth != 0 then return x
  else if !x.keyAllowed then malformed
  else
    let (opened, x) := x.openBlock x.column
    return if opened then x.push t else x

/-- A hyphen that begins an entry. -/
def blockEntry (x : Lexer) : Result Lexer := do
  let x ← x.beginBlock .blockSequenceStart
  let x ← { x with keyAllowed := true }.dropKey
  return x.advance 1 |>.push .blockEntry

/-- A question mark that announces a key. -/
def explicitKey (x : Lexer) : Result Lexer := do
  let x ← x.beginBlock .blockMappingStart
  let x ← { x with keyAllowed := x.depth == 0 }.dropKey
  return x.advance 1 |>.push .key

/-- A colon: the possible key before it becomes a key; without one the value stands alone. -/
def valueMark (x : Lexer) : Result Lexer := do
  match x.key? with
  | some k =>
    let x := (x.forgetKey).insert k.token .key
    let (opened, x) := if x.depth == 0 then x.openBlock k.column else (false, x)
    let x := if opened then x.insert k.token .blockMappingStart else x
    return { x with keyAllowed := false }.advance 1 |>.push .value
  | none =>
    let x ← x.beginBlock .blockMappingStart
    let x ← { x with keyAllowed := x.depth == 0 }.dropKey
    return x.advance 1 |>.push .value

/-- A token that may be a key, read by `read`. -/
def keyLike (x : Lexer) (read : Cursor → Result (Token × Cursor)) : Result Lexer := do
  let x ← x.saveKey
  let (t, c) ← read x.cursor
  return { x with cursor := c, keyAllowed := false }.push t

/-- A block scalar; a key may follow it. -/
def block (x : Lexer) : Result Lexer := do
  let x ← { x with keyAllowed := true }.dropKey
  let (text, c) ← blockScalar x.indent x.cursor
  return { x with cursor := c }.push (.scalar (String.ofList text) false)

/-- A plain scalar; a key may follow it if a line ended behind it. -/
def plain (x : Lexer) : Result Lexer := do
  let x ← x.saveKey
  let context : PlainContext := ⟨x.depth != 0, x.indent + 1⟩
  let (text, broken, c) := plainScalar context x.cursor.fuel [] false x.cursor
  return { x with cursor := c, keyAllowed := broken }.push (.scalar (String.ofList text) true)

/-- A plain scalar can begin here. -/
def startsPlain (x : Lexer) : Bool :=
  let a := x.cursor.peek
  !(isWideGap a || "-?:,[]\x7b\x7d#&*!|>'\"%@\x60".toList.contains a) ||
    (!isWideGap (x.cursor.peekAt 1) && (a == '-' || (x.depth == 0 && (a == '?' || a == ':'))))

def isSeparator (x : Lexer) (a : Char) : Bool :=
  x.cursor.column == 0 && x.cursor.peek == a && x.cursor.atSeparator

/-- The end of the text. -/
def finish (x : Lexer) : Result Lexer := do
  let x ← x.atMargin
  return { x with keys := [] }.push .streamEnd

/-- The next token. -/
def next (x : Lexer) : Result Lexer := do
  let x ← x.toNextToken.dropStale
  let x := x.unwind x.column
  let a := x.cursor.peek
  let gapFollows := isWideGap (x.cursor.peekAt 1)
  if a == '\x00' then x.finish
  else if a == '%' && x.cursor.column == 0 then
    let x ← x.atMargin
    let (t, c) ← readDirective x.cursor
    return { x with cursor := c }.push t
  else if x.isSeparator '-' then x.separator .documentStart
  else if x.isSeparator '.' then x.separator .documentEnd
  else if a == '[' then x.openFlow .flowSequenceStart
  else if a == '\x7b' then x.openFlow .flowMappingStart
  else if a == ']' then x.closeFlow .flowSequenceEnd
  else if a == '\x7d' then x.closeFlow .flowMappingEnd
  else if a == ',' then x.flowEntry
  else if a == '-' && gapFollows then x.blockEntry
  else if a == '?' && (x.depth != 0 || gapFollows) then x.explicitKey
  else if a == ':' && (x.depth != 0 || gapFollows) then x.valueMark
  else if a == '*' then
    x.keyLike fun c => do
      let (name, c) ← readAnchorName c.step
      return (.alias name, c)
  else if a == '&' then
    x.keyLike fun c => do
      let (name, c) ← readAnchorName c.step
      return (.anchor name, c)
  else if a == '!' then x.keyLike readTag
  else if (a == '|' || a == '>') && x.depth == 0 then x.block
  else if a == '\'' || a == '"' then
    x.keyLike fun c => do
      let (text, c) ← quotedScalar c
      return (.scalar (String.ofList text) false, c)
  else if x.startsPlain then x.plain
  else malformed

/-- The end of the text has been made a token. -/
def isDone (x : Lexer) : Bool := x.tokens.back? == some .streamEnd

/-- Makes tokens until the next one is certain; `n` bounds how many. -/
def prepare : Nat → Lexer → Result Lexer
  | 0, _ => malformed
  | n + 1, x =>
    if x.isDone then return x
    else if x.tokens.size ≤ x.taken then do prepare n (← x.next)
    else do
      let x ← x.dropStale
      if x.keys.any (·.2.token == x.taken) then prepare n (← x.next) else return x

/-- The next token, and the state in which it is certain. -/
def peek (x : Lexer) : Result (Token × Lexer) := do
  let x ← x.prepare (x.cursor.fuel + 1)
  return (x.tokens.getD x.taken .streamEnd, x)

/-- Past the next token. -/
def take (x : Lexer) : Lexer := { x with taken := x.taken + 1 }

end Lexer

end StillVideo.Yaml
