import StillVideo.Yaml.Conversion
import StillVideo.Yaml.Members

/-!
The document that a graph of nodes describes.

Nodes are read from the root on, nearer ones first: a scalar is read where it is met, a collection
only after all that were met before it, so of two faults the one nearer to the root is reported.
Merge keys pull in the entries of other mappings, and of several entries with the same key the last
one counts, in the place of the first. At the end the collections are put together in the order in
which they were completed; those that hold themselves are put together to a finite depth.
-/

namespace StillVideo.Yaml

/-- What is known of the value of a node: a collection may be announced before it is read. -/
inductive Content
  | announced
  | scalar (s : Scalar)
  | sequence (items : List Nat)
  | pairs (items : List (Nat × Nat))
  | members (items : List Scalar)
  | mapping (entries : List (Scalar × Nat))

/-- The state of reading: the nodes, what is known of each, and the collections announced meanwhile,
the last one first. -/
structure Reader where
  nodes : Array Node
  contents : Array (Option Content)
  announced : List Nat

abbrev Read := StateT Reader Result

namespace Read

def fail {α : Type} : Read α := fun _ => malformed

/-- The node with a number. -/
def node (i : Nat) : Read Node := return (← get).nodes.getD i default

/-- Replaces a node. -/
def setNode (i : Nat) (n : Node) : Read Unit :=
  modify fun r => { r with nodes := r.nodes.setIfInBounds i n }

/-- Notes what is known of a node. -/
def note (i : Nat) (c : Content) : Read Unit :=
  modify fun r => { r with contents := r.contents.setIfInBounds i (some c) }

/-- Meets a node: a scalar is read at once, a collection announced. -/
def meet (i : Nat) : Read Content := do
  let r ← get
  match r.contents.getD i none with
  | some c => return c
  | none =>
    let c ←
      match (r.nodes.getD i default).tag with
      | .sequence | .mapping | .members | .pairs =>
        modify fun r => { r with announced := i :: r.announced }
        pure .announced
      | _ => pure (.scalar (← liftM (scalarValue r.nodes i)))
    note i c
    return c

/-! ## Merge keys -/

/-- The entries of a mapping. -/
def entriesOf (i : Nat) : Read (List (Nat × Nat)) := do
  match ← node i with
  | .mapping _ entries => return entries
  | _ => fail

/-- Sets the entries of a mapping. -/
def setEntries (i : Nat) (entries : List (Nat × Nat)) : Read Unit := do
  setNode i (.mapping (← node i).tag entries)

/-- The entries that the value of a merge key pulls in once `flattened` has replaced the merge keys
in them; of several mappings the first one counts most. -/
def pulled (flattened : Nat → Read Unit) (value : Nat) : Read (List (Nat × Nat)) := do
  let one := fun i => do flattened i; entriesOf i
  match ← node value with
  | .mapping .. => one value
  | .sequence _ items => return (← items.mapM one).reverse.flatten
  | .scalar .. => fail

/-- The entries of a mapping without its merge keys, and the values of those. -/
def split (entries : List (Nat × Nat)) : Read (List (Nat × Nat) × List Nat) := do
  let nodes := (← get).nodes
  let isMerge := fun (e : Nat × Nat) => (nodes.getD e.1 default).tag == .merge
  return (entries.filter (!isMerge ·), (entries.filter isMerge).map (·.2))

/-- A default key that is met as a key counts as a text from then on. -/
def nameDefault (entries : List (Nat × Nat)) : Read Unit :=
  entries.forM fun e => do
    let key ← node e.1
    if key.tag == .value then setNode e.1 (key.withTag .text)

/-- Replaces the merge keys of a mapping by the entries that they pull in, which come first. -/
def flatten : Nat → Nat → Read Unit
  | 0, _ => fun _ => unconverted .nesting
  | n + 1, i => do
    let (own, merges) ← split (← entriesOf i)
    setEntries i own
    nameDefault own
    let first ← merges.mapM (pulled (flatten n))
    setEntries i (first.flatten ++ own)

/-- How deep merge keys may refer to each other. -/
def mergeLimit : Nat := 2 * Compose.nestingLimit

/-! ## Collections -/

/-- The key of an entry; no collection is one. -/
def key (i : Nat) : Read Scalar := do
  match ← meet i with
  | .scalar s => return s
  | _ => fail

/-- Two keys are the same, or neither is a number and they are one node; the word for no number
always writes the same one. -/
def sameKey (nodes : Array Node) (a b : Nat × Scalar) : Bool :=
  a.2.same b.2 || isNaN a.2 && isNaN b.2 && (a.1 == b.1 || isWord a.1 && isWord b.1)
where
  isNaN : Scalar → Bool
    | .real x => x.isNaN
    | _ => false
  isWord (i : Nat) : Bool :=
    match scalarText nodes (nodes.size + 1) i with
    | .ok s => isNaNWord s
    | .error _ => false

/-- Sets the value of a key: a new key comes last, a known one keeps its place. -/
def put (nodes : Array Node) (entries : List ((Nat × Scalar) × Nat)) (k : Nat × Scalar) (v : Nat) :
    List ((Nat × Scalar) × Nat) :=
  if entries.any (sameKey nodes ·.1 k) then
    entries.map fun e => if sameKey nodes e.1 k then (e.1, v) else e
  else entries ++ [(k, v)]

/-- The entries of a mapping, each key once. -/
def mapping (i : Nat) : Read (List (Scalar × Nat)) := do
  flatten mergeLimit i
  let entries ← (← entriesOf i).mapM fun e => do
    let k ← key e.1
    let _ ← meet e.2
    return ((e.1, k), e.2)
  let nodes := (← get).nodes
  return (entries.foldl (fun es e => put nodes es e.1 e.2) []).map fun e => (e.1.2, e.2)

/-- The items of a sequence. -/
def items (i : Nat) : Read (List Nat) := do
  match ← node i with
  | .sequence _ items => return items
  | _ => fail

/-- The key and the value of a mapping with one entry. -/
def pair (i : Nat) : Read (Nat × Nat) := do
  match ← entriesOf i with
  | [(k, v)] =>
    let _ ← meet k
    let _ ← meet v
    return (k, v)
  | _ => fail

/-- Reads an announced collection. -/
def expand (i : Nat) : Read Unit := do
  match (← node i).tag with
  | .sequence =>
    let parts ← items i
    parts.forM fun p => do let _ ← meet p
    note i (.sequence parts)
  | .pairs => note i (.pairs (← (← items i).mapM pair))
  | .members => note i (.members (Members.arrange ((← mapping i).map (·.1))))
  | _ => note i (.mapping (← mapping i))

/-- Reads the collections announced so far, then those announced by them. -/
def rounds : Nat → Read Unit
  | 0 => fail
  | n + 1 => do
    match (← get).announced.reverse with
    | [] => return
    | round =>
      modify fun r => { r with announced := [] }
      round.forM expand
      rounds n

/-- Reads all that a node holds. -/
def all (root : Nat) : Read Unit := do
  let _ ← meet root
  rounds ((← get).nodes.size + 1)

end Read

/-! ## Putting together -/

namespace Content

/-- The nodes that a collection holds. -/
def parts : Content → List Nat
  | .sequence items => items
  | .pairs items => items.flatMap fun p => [p.1, p.2]
  | .mapping entries => entries.map (·.2)
  | _ => []

/-- The document of a node whose parts have documents. -/
def document (parts : Nat → Document) : Content → Document
  | .announced => .null
  | .scalar s => .scalar s
  | .sequence items => .sequence (items.map parts)
  | .pairs items => .sequence (items.map fun p => .tuple [parts p.1, parts p.2])
  | .members items => .members items
  | .mapping entries => .mapping (entries.map fun e => (e.1, parts e.2))

/-- What stands for a collection inside its own text. -/
def ellipsis : Content → String
  | .mapping _ => "{...}"
  | _ => "[...]"

end Content

/-- What is known of the nodes by their numbers. -/
abbrev Contents := Array (Option Content)

/-- What is known of a node. -/
def Contents.at (cs : Contents) (i : Nat) : Content := (cs.getD i none).getD .announced

/-- A document with the text that shows a node; the nodes of `opened` are not shown again. -/
def shown (cs : Contents) : Nat → List Nat → Nat → Document
  | 0, _, _ => .null
  | n + 1, opened, i =>
    let c := cs.at i
    if opened.contains i then .loop c.ellipsis .null
    else c.document (shown cs n (i :: opened))

/-- The nodes that nodes hold, directly or not; `seen` are known already. -/
def reached (cs : Contents) : Nat → List Nat → List Nat → List Nat
  | 0, seen, _ => seen
  | _, seen, [] => seen
  | n + 1, seen, i :: rest =>
    if seen.contains i then reached cs n seen rest
    else reached cs n (i :: seen) ((cs.at i).parts ++ rest)

/-- How many nodes the collections hold together. -/
def Contents.breadth (cs : Contents) : Nat :=
  cs.foldl (fun n c => n + ((c.getD .announced).parts.length + 1)) 0

/-- A collection holds itself. -/
def holdsItself (cs : Contents) (i : Nat) : Bool :=
  (reached cs (2 * cs.breadth + 1) [] (cs.at i).parts).contains i

/-- The documents of all scalars. -/
def scalarDocuments (cs : Contents) : Array Document :=
  cs.map fun c =>
    match c with
    | some (.scalar s) => .scalar s
    | _ => .null

/-- Puts a collection together from the documents of its parts. -/
def assemble (cs : Contents) (looped : Bool) (documents : Array Document) (i : Nat) :
    Array Document :=
  let d := (cs.at i).document fun p => documents.getD p .null
  let d :=
    if looped && holdsItself cs i then .loop (shown cs (cs.size + 1) [] i).literal d else d
  match cs.at i with
  | .scalar _ => documents
  | _ => documents.setIfInBounds i d

/-- How deep collections that hold themselves are put together. -/
def loopDepth : Nat := 8

/-- The documents of all nodes; the collections are given in the order in which they were
completed. -/
def assembleAll (cs : Contents) (looped : Bool) (completed : List Nat) : Array Document :=
  (List.range (if looped then loopDepth else 1)).foldl
    (fun documents _ => completed.foldl (assemble cs looped) documents) (scalarDocuments cs)

/-- The document that a text writes; a text without a document writes nothing. -/
def read (s : String) : Result Document := do
  let (root, graph) ← compose s
  match root with
  | none => return .null
  | some i =>
    let start : Reader := ⟨graph.nodes, Array.replicate graph.nodes.size none, []⟩
    let (_, reader) ← (Read.all i).run start
    let documents := assembleAll reader.contents graph.looped graph.completed.reverse
    return documents.getD i .null

end StillVideo.Yaml
