import StillVideo.Yaml.Form

/-!
Nodes: the graph that the tokens of a document describe.

A node is known by its number, and the parts of a collection are the numbers of other nodes. An
alias stands for the node that its anchor marks, and may do so inside that node, which then holds
itself. Tokens are asked for one by one, so of several faults in a text the first one is found.
Collections may be nested to a limited depth.
-/

namespace StillVideo.Yaml

/-- A scalar, a sequence or a mapping. -/
inductive Node
  | scalar (tag : Tag) (text : String)
  | sequence (tag : Tag) (items : List Nat)
  | mapping (tag : Tag) (entries : List (Nat × Nat))

instance : Inhabited Node := ⟨.scalar .null ""⟩

namespace Node

/-- The kind of a node. -/
def tag : Node → Tag
  | .scalar t _ | .sequence t _ | .mapping t _ => t

/-- The same node as another kind. -/
def withTag (t : Tag) : Node → Node
  | .scalar _ s => .scalar t s
  | .sequence _ items => .sequence t items
  | .mapping _ entries => .mapping t entries

end Node

/-- The nodes by their numbers, the collections in the order in which they were completed, the last
one first, and whether some collection holds itself. -/
structure Graph where
  nodes : Array Node
  completed : List Nat
  looped : Bool

/-- The state of composition: the text ahead, the meaning of tag handles, the nodes marked by
anchors, the nodes so far, and the collections that are open. -/
structure Composer where
  lexer : Lexer
  handles : List (String × String)
  anchors : List (String × Nat)
  graph : Graph
  opened : List Nat

abbrev Compose := StateT Composer Result

namespace Compose

/-- The token ahead. -/
def peek : Compose Token := do
  let (t, lexer) ← liftM (← get).lexer.peek
  modify fun x => { x with lexer }
  return t

/-- Takes the token ahead. -/
def take : Compose Unit := modify fun x => { x with lexer := x.lexer.take }

/-- Takes the token ahead if it is `t`. -/
def takeIf (t : Token) : Compose Bool := do
  if (← peek) == t then take; return true else return false

def fail {α : Type} : Compose α := fun _ => malformed

/-- Collections are nested too deep. -/
def failNested {α : Type} : Compose α := fun x =>
  if x.lexer.cursor.isBlocked 1 then malformed else .error (.conversion .nesting)

/-- A new node. -/
def add (n : Node) : Compose Nat :=
  modifyGet fun x =>
    (x.graph.nodes.size, { x with graph := { x.graph with nodes := x.graph.nodes.push n } })

/-- The node of something left out. -/
def empty : Compose Nat := add (.scalar .null "")

/-- The full tag that a handle and a suffix name; the mark alone names none. -/
def fullTag (handle : Option String) (suffix : String) : Compose (Option String) := do
  match handle with
  | none => return some suffix
  | some h =>
    match (← get).handles.lookup h with
    | some lead => return some (lead ++ suffix)
    | none => fail

/-- An anchor and a tag before a node, in either order. -/
def properties : Compose (Option String × Option String) := do
  match ← peek with
  | .anchor name =>
    take
    match ← peek with
    | .tag handle suffix => take; return (some name, ← fullTag handle suffix)
    | _ => return (some name, none)
  | .tag handle suffix =>
    take
    match ← peek with
    | .anchor name => take; return (some name, ← fullTag handle suffix)
    | _ => return (none, ← fullTag handle suffix)
  | _ => return (none, none)

/-- An anchor marks one node only. -/
def requireNew (anchor : Option String) : Compose Unit := do
  match anchor with
  | none => return
  | some name => if ((← get).anchors.lookup name).isSome then fail

/-- Marks a node by an anchor. -/
def mark (anchor : Option String) (i : Nat) : Compose Nat := do
  match anchor with
  | none => return i
  | some name =>
    modify fun x => { x with anchors := (name, i) :: x.anchors }
    return i

/-- A scalar, marked by its anchor. -/
def scalar (anchor : Option String) (tag : Tag) (text : String) : Compose Nat := do
  requireNew anchor
  mark anchor (← add (.scalar tag text))

/-- A collection, marked by its anchor before its parts are read. -/
def collection {α : Type} (anchor : Option String) (node : List α → Node) (start : Compose Unit)
    (parts : Compose (List α)) : Compose Nat := do
  requireNew anchor
  start
  let i ← mark anchor (← add (node []))
  modify fun x => { x with opened := i :: x.opened }
  let ps ← parts
  modify fun x => { x with
    opened := x.opened.drop 1
    graph := { x.graph with
      nodes := x.graph.nodes.setIfInBounds i (node ps)
      completed := i :: x.graph.completed } }
  return i

/-- The node that an alias stands for. -/
def target (name : String) : Compose Nat := do
  match (← get).anchors.lookup name with
  | some i =>
    modify fun x => { x with
      graph := { x.graph with looped := x.graph.looped || x.opened.contains i } }
    return i
  | none => fail

mutual

/-- A node; `block` allows the block forms, `indentless` a sequence that is not indented. `room`
counts the levels to which collections may still be nested. -/
def node : Nat → Nat → Bool → Bool → Compose Nat
  | 0, _, _, _ => fail
  | _, 0, _, _ => failNested
  | n + 1, room + 1, block, indentless => do
    match ← peek with
    | .alias name => take; target name
    | _ =>
      let (anchor, tag) ← properties
      let sequence := collection anchor (.sequence (Tag.given tag .sequence))
      let mapping := collection anchor (.mapping (Tag.given tag .mapping))
      match ← peek with
      | .scalar text plain =>
        take
        let form := if plain || tag == some "!" then plainTag text else .text
        scalar anchor (Tag.given tag form) text
      | .flowSequenceStart => sequence take (flowItems n room true)
      | .flowMappingStart => mapping take (flowEntries n room true)
      | t =>
        if indentless && t == .blockEntry then sequence (pure ()) (indentlessItems n room)
        else if block && t == .blockSequenceStart then sequence take (blockItems n room)
        else if block && t == .blockMappingStart then mapping take (blockEntries n room)
        else if anchor.isSome || tag.isSome then scalar anchor (Tag.given tag .null) ""
        else fail

/-- The items of an indented sequence up to the end of its block. -/
def blockItems : Nat → Nat → Compose (List Nat)
  | 0, _ => fail
  | n + 1, room => do
    if ← takeIf .blockEntry then
      let item ←
        match ← peek with
        | .blockEntry | .blockEnd => empty
        | _ => node n room true false
      return item :: (← blockItems n room)
    else if ← takeIf .blockEnd then return []
    else fail

/-- The items of a sequence that is not indented. -/
def indentlessItems : Nat → Nat → Compose (List Nat)
  | 0, _ => fail
  | n + 1, room => do
    if ← takeIf .blockEntry then
      let item ←
        match ← peek with
        | .blockEntry | .key | .value | .blockEnd => empty
        | _ => node n room true false
      return item :: (← indentlessItems n room)
    else return []

/-- A key or value of a block, which may be left out. -/
def blockPart : Nat → Nat → Compose Nat
  | 0, _ => fail
  | n + 1, room => do
    match ← peek with
    | .key | .value | .blockEnd => empty
    | _ => node n room true true

/-- The entries of a mapping up to the end of its block. -/
def blockEntries : Nat → Nat → Compose (List (Nat × Nat))
  | 0, _ => fail
  | n + 1, room => do
    if ← takeIf .key then
      let key ← blockPart n room
      let value ← if ← takeIf .value then blockPart n room else empty
      return (key, value) :: (← blockEntries n room)
    else if ← takeIf .blockEnd then return []
    else fail

/-- The items between square brackets. A single pair counts as a mapping. -/
def flowItems : Nat → Nat → Bool → Compose (List Nat)
  | 0, _, _ => fail
  | n + 1, room, first => do
    if ← takeIf .flowSequenceEnd then return []
    else
      if !first then
        if !(← takeIf .flowEntry) then fail
      match ← peek with
      | .key =>
        let item ← collection none (.mapping .mapping) take (flowPair n (room - 1))
        return item :: (← flowItems n room false)
      | .flowSequenceEnd => take; return []
      | _ =>
        let item ← node n room false false
        return item :: (← flowItems n room false)

/-- The only entry of a mapping without brackets. -/
def flowPair : Nat → Nat → Compose (List (Nat × Nat))
  | 0, _ => fail
  | n + 1, room => do
    let key ←
      match ← peek with
      | .value | .flowEntry | .flowSequenceEnd => empty
      | _ => node n room false false
    let value ←
      if ← takeIf .value then
        match ← peek with
        | .flowEntry | .flowSequenceEnd => empty
        | _ => node n room false false
      else empty
    return [(key, value)]

/-- The entries between curly brackets. A lone node is a key without a value. -/
def flowEntries : Nat → Nat → Bool → Compose (List (Nat × Nat))
  | 0, _, _ => fail
  | n + 1, room, first => do
    if ← takeIf .flowMappingEnd then return []
    else
      if !first then
        if !(← takeIf .flowEntry) then fail
      if ← takeIf .key then
        let key ←
          match ← peek with
          | .value | .flowEntry | .flowMappingEnd => empty
          | _ => node n room false false
        let value ←
          if ← takeIf .value then
            match ← peek with
            | .flowEntry | .flowMappingEnd => empty
            | _ => node n room false false
          else empty
        return (key, value) :: (← flowEntries n room false)
      else if ← takeIf .flowMappingEnd then return []
      else
        let key ← node n room false false
        return (key, ← empty) :: (← flowEntries n room false)

end

/-- The handles that need no declaration. -/
def commonHandles : List (String × String) := [("!", "!"), ("!!", Tag.commonLead)]

/-- The declarations before a document: at most one version, of the first generation, and each
handle once. -/
def directives : Nat → Bool → List (String × String) → Compose (List (String × String))
  | 0, _, _ => fail
  | n + 1, versioned, handles => do
    match ← peek with
    | .directive (.version major) =>
      take
      if versioned || major != 1 then fail else directives n true handles
    | .directive (.tag handle lead) =>
      take
      if (handles.lookup handle).isSome then fail
      else directives n versioned ((handle, lead) :: handles)
    | .directive .other => take; directives n versioned handles
    | _ => return handles ++ commonHandles

/-- Past marks for the end of a document. -/
def skipEnds : Nat → Compose Unit
  | 0 => return
  | n + 1 => do if ← takeIf .documentEnd then skipEnds n

/-- How deep collections may be nested, the scalars in them included. -/
def nestingLimit : Nat := 488

/-- The only document of a text, if there is one. -/
def document (fuel : Nat) : Compose (Option Nat) := do
  let root ←
    match ← peek with
    | .streamEnd => return none
    | .directive _ | .documentStart =>
      let handles ← directives fuel false []
      modify fun x => { x with handles := handles }
      if ← takeIf .documentStart then
        match ← peek with
        | .directive _ | .documentStart | .documentEnd | .streamEnd => empty
        | _ => node fuel nestingLimit true false
      else fail
    | _ => node fuel nestingLimit true false
  skipEnds fuel
  match ← peek with
  | .streamEnd => return some root
  | .directive _ =>
    let _ ← directives fuel false []
    fail
  | _ => fail

end Compose

/-- The graph of a document text and the number of its root; a text without a document has none. All
characters of a text must be allowed, even behind its document. -/
def compose (s : String) : Result (Option Nat × Graph) := do
  let start : Composer := ⟨Lexer.start s, Compose.commonHandles, [], ⟨#[], [], false⟩, []⟩
  let (root, x) ← (Compose.document (6 * s.length + 16)).run start
  if s.toList.all isAllowed then return (root, x.graph) else malformed

end StillVideo.Yaml
