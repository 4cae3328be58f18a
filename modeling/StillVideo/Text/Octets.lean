import StillVideo.Text.Quoted

/-!
Octets as text.

Base 64 writes three octets as four characters of six bits. What is outside its alphabet is skipped,
and an equals sign ends the text as soon as the signs in a row complete a group of four. A list of
octets is shown like a quoted text with a `b` before it and hexadecimal digits for all that is not
ASCII.
-/

namespace StillVideo.Octets

/-- The six bits that a character of the alphabet stands for. -/
def sextet? (c : Char) : Option Nat :=
  if 'A' ≤ c && c ≤ 'Z' then some (c.toNat - 65)
  else if 'a' ≤ c && c ≤ 'z' then some (c.toNat - 71)
  else if '0' ≤ c && c ≤ '9' then some (c.toNat + 4)
  else if c == '+' then some 62
  else if c == '/' then some 63
  else none

/-- The sextets of a text. `position` counts those of the open group, `signs` the equals signs since
the last one; a group that stays open makes the text invalid. -/
def sextets (position signs : Nat) : List Char → Option (List Nat)
  | [] => if position == 0 then some [] else none
  | '=' :: cs =>
    if position < 2 then sextets position signs cs
    else if 3 ≤ position + signs then some []
    else sextets position (signs + 1) cs
  | c :: cs =>
    match sextet? c with
    | none => sextets position signs cs
    | some s => (sextets ((position + 1) % 4) 0 cs).map (s :: ·)

/-- The octets that sextets fill. -/
def ofSextets : List Nat → List Nat
  | a :: b :: c :: d :: rest =>
    [a * 4 + b / 16, b % 16 * 16 + c / 4, c % 4 * 64 + d] ++ ofSextets rest
  | [a, b, c] => [a * 4 + b / 16, b % 16 * 16 + c / 4]
  | [a, b] => [a * 4 + b / 16]
  | _ => []

/-- The octets that a text in base 64 writes. -/
def decode? (cs : List Char) : Option (List Nat) := (sextets 0 0 cs).map ofSextets

/-- An octet between the quotes `quote`. -/
def octetChars (quote : Char) (n : Nat) : List Char :=
  if n < 0x7f then quotedChar quote (Char.ofNat n) else '\\' :: 'x' :: hexDigits 2 n

/-- A list of octets as a text. -/
def display (octets : List Nat) : String :=
  let q := quoteFor (octets.map Char.ofNat)
  String.ofList ('b' :: q :: octets.flatMap (octetChars q) ++ [q])

end StillVideo.Octets
