import StillVideo.Text.Blank

/-!
Paths with `/` between their parts.

A path is a text; nothing here looks at files. Normal form drops empty parts and `.`, resolves `..`
against the part before, and keeps two slashes at the beginning, which are told apart from one.
-/

namespace StillVideo.Path

/-- `cs` up to and including its last `/`, and the rest. -/
def cutLast (cs : List Char) : List Char × List Char :=
  let tail := (cs.reverse.takeWhile (· != '/')).reverse
  (cs.take (cs.length - tail.length), tail)

/-- Without the slashes at the end, unless there is nothing else. -/
def dropSlashes (cs : List Char) : List Char :=
  if cs.all (· == '/') then cs else trimRight (· == '/') cs

/-- The directory part and the name part. -/
def split (path : String) : String × String :=
  let (head, tail) := cutLast path.toList
  (String.ofList (dropSlashes head), String.ofList tail)

/-- The directory part. -/
def dirname (path : String) : String := (split path).1

/-- The name part. -/
def basename (path : String) : String := (split path).2

/-- The path begins at the root. -/
def isAbsolute (path : String) : Bool := path.toList.head? == some '/'

/-- `path` seen from `base`. -/
def join (base path : String) : String :=
  if isAbsolute path then path
  else if base.isEmpty || base.toList.getLast? == some '/' then base ++ path
  else base ++ "/" ++ path

/-- A name without its extension, and the extension with its point. Points at the beginning of a
name begin no extension. -/
def splitExtension (path : String) : String × String :=
  let (head, name) := cutLast path.toList
  let lead := name.takeWhile (· == '.')
  let body := name.dropWhile (· == '.')
  let extension := (body.reverse.takeWhile (· != '.')).reverse
  if extension.length < body.length then
    let stem := body.take (body.length - extension.length - 1)
    (String.ofList (head ++ lead ++ stem), String.ofList ('.' :: extension))
  else (path, "")

/-- The extension of a path, with its point. -/
def extension (path : String) : String := (splitExtension path).2

/-- The parts of a normal form, the last part first. `rooted` paths have nothing above them. -/
def normalParts (rooted : Bool) : List (List Char) → List (List Char) → List (List Char)
  | acc, [] => acc
  | acc, part :: rest =>
    if part == [] || part == ['.'] then normalParts rooted acc rest
    else if part != ['.', '.'] then normalParts rooted (part :: acc) rest
    else
      match acc with
      | [] => normalParts rooted (if rooted then [] else [part]) rest
      | last :: before =>
        normalParts rooted (if last == ['.', '.'] then part :: acc else before) rest

/-- The slashes at the beginning of a normal form: none, one, or exactly two. -/
def leadingSlashes (cs : List Char) : List Char :=
  match cs with
  | '/' :: '/' :: '/' :: _ => ['/']
  | '/' :: '/' :: _ => ['/', '/']
  | '/' :: _ => ['/']
  | _ => []

/-- The normal form of a path. -/
def normal (path : String) : String :=
  let cs := path.toList
  let lead := leadingSlashes cs
  let parts := (normalParts (!lead.isEmpty) [] (splitFields '/' cs)).reverse
  let body := lead ++ ['/'].intercalate parts
  if body.isEmpty then "." else String.ofList body

/-- The normal form of a path seen from the directory `cwd`. -/
def absolute (cwd path : String) : String :=
  normal (if isAbsolute path then path else join cwd path)

/-- A tilde at the beginning, alone or before a slash, stands for the home directory. -/
def expandHome (home path : String) : String :=
  match path.toList with
  | '~' :: rest =>
    if rest.isEmpty || rest.head? == some '/' then
      let expanded := trimRight (· == '/') home.toList ++ rest
      if expanded.isEmpty then "/" else String.ofList expanded
    else path
  | _ => path

/-- The directories above a path in normal form, the nearest one first. -/
def parents (path : String) : List String :=
  go path.toList.length path
where
  /-- At most `n` directories. -/
  go : Nat → String → List String
    | 0, _ => []
    | n + 1, p =>
      let d := dirname p
      if d == p || d.isEmpty then [] else d :: go n d

end StillVideo.Path
