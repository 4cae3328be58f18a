/-!
Surrogates in texts.

A text is a row of code points, and a document may write surrogates, code points that are no
characters. In a text each of them is kept as the private-use character `0x100000` above it.
-/

namespace StillVideo

/-- The distance from a surrogate to the character that stands for it. -/
def surrogateShift : Nat := 0x100000

/-- The code point is no character but half of a pair. -/
def isSurrogate (n : Nat) : Bool := 0xd800 ≤ n && n ≤ 0xdfff

/-- The character that stands for a code point. -/
def charOfCode (n : Nat) : Char :=
  Char.ofNat (if isSurrogate n then n + surrogateShift else n)

/-- The surrogate that a character stands for. -/
def surrogate? (c : Char) : Option Nat :=
  if surrogateShift ≤ c.toNat && isSurrogate (c.toNat - surrogateShift) then
    some (c.toNat - surrogateShift)
  else none

end StillVideo
