/-!
Blank characters and trimming.

Unicode counts twenty-nine characters as white space here: the controls that separate lines and
records, the space, and the wider spaces. Numerals allow fewer around them: the four record
separators are no padding of a numeral.
-/

namespace StillVideo

/-- White space: line and record separators, the space and its typographic variants. -/
def isBlank (c : Char) : Bool :=
  let n := c.toNat
  (0x09 ≤ n && n ≤ 0x0d) || (0x1c ≤ n && n ≤ 0x20) || n == 0x85 || n == 0xa0 || n == 0x1680 ||
    (0x2000 ≤ n && n ≤ 0x200a) || n == 0x2028 || n == 0x2029 || n == 0x202f || n == 0x205f ||
    n == 0x3000

/-- White space that may surround a numeral: all of it but the four record separators. -/
def isNumeralPadding (c : Char) : Bool :=
  isBlank c && !(0x1c ≤ c.toNat && c.toNat ≤ 0x1f)

/-- `cs` without the characters satisfying `p` at its end. -/
def trimRight (p : Char → Bool) (cs : List Char) : List Char :=
  (cs.reverse.dropWhile p).reverse

/-- `cs` without the characters satisfying `p` at both ends. -/
def trim (p : Char → Bool) (cs : List Char) : List Char :=
  trimRight p (cs.dropWhile p)

/-- The text without white space at both ends. -/
def strip (s : String) : String :=
  String.ofList (trim isBlank s.toList)

/-- The parts of `cs` between the occurrences of `sep`; one part more than there are occurrences. -/
def splitFields (sep : Char) : List Char → List (List Char)
  | [] => [[]]
  | c :: cs =>
    if c = sep then [] :: splitFields sep cs
    else
      match splitFields sep cs with
      | [] => [[c]]
      | part :: parts => (c :: part) :: parts

theorem splitFields_ne_nil (sep : Char) (cs : List Char) : splitFields sep cs ≠ [] := by
  cases cs with
  | nil => simp [splitFields]
  | cons c cs =>
    unfold splitFields
    split
    · simp
    · split <;> simp

end StillVideo
