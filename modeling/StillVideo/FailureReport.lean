import StillVideo.Document.Parts

/-!
Reports of encoder runs that failed, from values of any kind.

The session parameters may be a mapping or a sequence of pairs, and the lines of the encoder any
value that has parts; left out, there are none of either.
-/

namespace StillVideo

namespace Document

/-- Sets the value of a key: a new key comes last, a known one keeps its place. -/
def put (entries : List (Scalar × Document)) (k : Scalar) (d : Document) :
    List (Scalar × Document) :=
  if entries.any (·.1.same k) then entries.map fun e => if e.1.same k then (e.1, d) else e
  else entries ++ [(k, d)]

/-- The key and the value that a pair gives. -/
def toEntry (pair : Document) : Except Fault (Scalar × Document) := do
  match ← pair.parts with
  | [k, v] => return (← k.toKey, v)
  | _ => throw .pairLength

/-- The entries of a value that may be left out. -/
def givenEntries (d : Document) : Except Fault (List (Scalar × Document)) :=
  if !d.isGiven then .ok []
  else
    match d.bare with
    | .mapping entries => .ok entries
    | _ => do
      (← d.parts).foldlM (fun entries pair => do
        let (k, v) ← pair.toEntry
        return put entries k v) []

end Document

/-- A report from a headline, the parameters of the session, the exit code, whether the run was
cancelled, and the lines of the encoder. -/
def EncodeFailure.ofValues (headline context exitCode cancelled diagnostics : Document) :
    Except Fault EncodeFailure := do
  let context ← context.givenEntries
  let diagnostics ← diagnostics.givenParts
  match headline with
  | .scalar (.text s) => return ⟨s, context, exitCode, cancelled, diagnostics⟩
  | d => throw (.joinedKind d.kind)

end StillVideo
