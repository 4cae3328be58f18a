import StillVideo.Number
import StillVideo.Text.Lowercase

/-!
Colours as people write them.

A colour is a list of three channels, a name of the web's palette, hexadecimal digits behind `#`, or
one of the functional forms with whole channels, percentages, or hue and two percentages. Case does
not matter, and white space may stand inside the brackets of a functional form. Channels are not
limited to a byte.
-/

namespace StillVideo

/-- Red, green and blue. -/
structure Colour where
  red : Int
  green : Int
  blue : Int
  deriving DecidableEq

namespace Colour

def black : Colour := ⟨0, 0, 0⟩

/-- The names of the web's palette with their channels, a byte each. -/
def palette : List (String × Nat) :=
  [("aliceblue", 0xf0f8ff), ("antiquewhite", 0xfaebd7), ("aqua", 0x00ffff),
   ("aquamarine", 0x7fffd4), ("azure", 0xf0ffff), ("beige", 0xf5f5dc), ("bisque", 0xffe4c4),
   ("black", 0x000000), ("blanchedalmond", 0xffebcd), ("blue", 0x0000ff),
   ("blueviolet", 0x8a2be2), ("brown", 0xa52a2a), ("burlywood", 0xdeb887),
   ("cadetblue", 0x5f9ea0), ("chartreuse", 0x7fff00), ("chocolate", 0xd2691e),
   ("coral", 0xff7f50), ("cornflowerblue", 0x6495ed), ("cornsilk", 0xfff8dc),
   ("crimson", 0xdc143c), ("cyan", 0x00ffff), ("darkblue", 0x00008b), ("darkcyan", 0x008b8b),
   ("darkgoldenrod", 0xb8860b), ("darkgray", 0xa9a9a9), ("darkgrey", 0xa9a9a9),
   ("darkgreen", 0x006400), ("darkkhaki", 0xbdb76b), ("darkmagenta", 0x8b008b),
   ("darkolivegreen", 0x556b2f), ("darkorange", 0xff8c00), ("darkorchid", 0x9932cc),
   ("darkred", 0x8b0000), ("darksalmon", 0xe9967a), ("darkseagreen", 0x8fbc8f),
   ("darkslateblue", 0x483d8b), ("darkslategray", 0x2f4f4f), ("darkslategrey", 0x2f4f4f),
   ("darkturquoise", 0x00ced1), ("darkviolet", 0x9400d3), ("deeppink", 0xff1493),
   ("deepskyblue", 0x00bfff), ("dimgray", 0x696969), ("dimgrey", 0x696969),
   ("dodgerblue", 0x1e90ff), ("firebrick", 0xb22222), ("floralwhite", 0xfffaf0),
   ("forestgreen", 0x228b22), ("fuchsia", 0xff00ff), ("gainsboro", 0xdcdcdc),
   ("ghostwhite", 0xf8f8ff), ("gold", 0xffd700), ("goldenrod", 0xdaa520), ("gray", 0x808080),
   ("grey", 0x808080), ("green", 0x008000), ("greenyellow", 0xadff2f), ("honeydew", 0xf0fff0),
   ("hotpink", 0xff69b4), ("indianred", 0xcd5c5c), ("indigo", 0x4b0082), ("ivory", 0xfffff0),
   ("khaki", 0xf0e68c), ("lavender", 0xe6e6fa), ("lavenderblush", 0xfff0f5),
   ("lawngreen", 0x7cfc00), ("lemonchiffon", 0xfffacd), ("lightblue", 0xadd8e6),
   ("lightcoral", 0xf08080), ("lightcyan", 0xe0ffff), ("lightgoldenrodyellow", 0xfafad2),
   ("lightgreen", 0x90ee90), ("lightgray", 0xd3d3d3), ("lightgrey", 0xd3d3d3),
   ("lightpink", 0xffb6c1), ("lightsalmon", 0xffa07a), ("lightseagreen", 0x20b2aa),
   ("lightskyblue", 0x87cefa), ("lightslategray", 0x778899), ("lightslategrey", 0x778899),
   ("lightsteelblue", 0xb0c4de), ("lightyellow", 0xffffe0), ("lime", 0x00ff00),
   ("limegreen", 0x32cd32), ("linen", 0xfaf0e6), ("magenta", 0xff00ff), ("maroon", 0x800000),
   ("mediumaquamarine", 0x66cdaa), ("mediumblue", 0x0000cd), ("mediumorchid", 0xba55d3),
   ("mediumpurple", 0x9370db), ("mediumseagreen", 0x3cb371), ("mediumslateblue", 0x7b68ee),
   ("mediumspringgreen", 0x00fa9a), ("mediumturquoise", 0x48d1cc), ("mediumvioletred", 0xc71585),
   ("midnightblue", 0x191970), ("mintcream", 0xf5fffa), ("mistyrose", 0xffe4e1),
   ("moccasin", 0xffe4b5), ("navajowhite", 0xffdead), ("navy", 0x000080), ("oldlace", 0xfdf5e6),
   ("olive", 0x808000), ("olivedrab", 0x6b8e23), ("orange", 0xffa500), ("orangered", 0xff4500),
   ("orchid", 0xda70d6), ("palegoldenrod", 0xeee8aa), ("palegreen", 0x98fb98),
   ("paleturquoise", 0xafeeee), ("palevioletred", 0xdb7093), ("papayawhip", 0xffefd5),
   ("peachpuff", 0xffdab9), ("peru", 0xcd853f), ("pink", 0xffc0cb), ("plum", 0xdda0dd),
   ("powderblue", 0xb0e0e6), ("purple", 0x800080), ("rebeccapurple", 0x663399),
   ("red", 0xff0000), ("rosybrown", 0xbc8f8f), ("royalblue", 0x4169e1),
   ("saddlebrown", 0x8b4513), ("salmon", 0xfa8072), ("sandybrown", 0xf4a460),
   ("seagreen", 0x2e8b57), ("seashell", 0xfff5ee), ("sienna", 0xa0522d), ("silver", 0xc0c0c0),
   ("skyblue", 0x87ceeb), ("slateblue", 0x6a5acd), ("slategray", 0x708090),
   ("slategrey", 0x708090), ("snow", 0xfffafa), ("springgreen", 0x00ff7f),
   ("steelblue", 0x4682b4), ("tan", 0xd2b48c), ("teal", 0x008080), ("thistle", 0xd8bfd8),
   ("tomato", 0xff6347), ("turquoise", 0x40e0d0), ("violet", 0xee82ee), ("wheat", 0xf5deb3),
   ("white", 0xffffff), ("whitesmoke", 0xf5f5f5), ("yellow", 0xffff00), ("yellowgreen", 0x9acd32)]

/-- The colour of three bytes. -/
def ofBytes (n : Nat) : Colour :=
  ⟨(n / 0x10000 : Nat), (n / 0x100 % 0x100 : Nat), (n % 0x100 : Nat)⟩

/-- The value of a small hexadecimal digit. -/
def hexDigit? (c : Char) : Option Nat :=
  if isPlainDigit c then some (c.toNat - 48)
  else if 'a' ≤ c && c ≤ 'f' then some (c.toNat - 87) else none

/-- A colour of hexadecimal digits, one or two for each channel; digits for opacity are read and
do not count. -/
def ofHex? (cs : List Char) : Option Colour := do
  let ds ← cs.mapM hexDigit?
  match ds with
  | [r, g, b] | [r, g, b, _] => return ⟨(r * 17 : Nat), (g * 17 : Nat), (b * 17 : Nat)⟩
  | [r, r', g, g', b, b'] | [r, r', g, g', b, b', _, _] =>
    return ⟨(r * 16 + r' : Nat), (g * 16 + g' : Nat), (b * 16 + b' : Nat)⟩
  | _ => none

/-- A whole number in digits of any script. -/
def channel? (cs : List Char) : Option Int :=
  if cs.isEmpty || !cs.all isDecimalDigit then none
  else some (digitsValue (cs.map plainDigit) : Nat)

/-- Digits, then perhaps a point and more digits. -/
def fraction? (cs : List Char) : Option Binary64 :=
  match cs.dropWhile isDecimalDigit with
  | [] => if cs.isEmpty then none else Binary64.read? (String.ofList cs)
  | '.' :: rest =>
    if (cs.takeWhile isDecimalDigit).isEmpty || !rest.all isDecimalDigit then none
    else Binary64.read? (String.ofList cs)
  | _ => none

/-- What stands before a percent sign. -/
def beforePercent? (cs : List Char) : Option (List Char) :=
  match cs.reverse with
  | '%' :: rest => some rest.reverse
  | _ => none

/-- The arguments of a functional form: what stands between its brackets, parted by commas, without
white space around. -/
def arguments? (name : String) (cs : List Char) : Option (List (List Char)) :=
  let lead := name.toList ++ ['(']
  if lead.isPrefixOf cs then
    match (cs.drop lead.length).reverse with
    | ')' :: body => some ((splitFields ',' body.reverse).map (trim isBlank))
    | _ => none
  else none

/-- A number rounded by adding a half and dropping the fraction. -/
def nearest (x : Binary64) : Int := ((x + Binary64.ofQuotient false 1 2).truncate?).getD 0

/-- A percentage of a full channel. -/
def percentChannel (n : Int) : Int := nearest (Binary64.ofInt (n * 255) / 100)

/-- The fractional part, counted upwards from the whole number below. -/
def fractional : Binary64 → Binary64
  | .finite s u _ =>
    let r := Binary64.ofUnits false (u % Binary64.one)
    if s && u % Binary64.one != 0 then -r + 1 else r
  | x => x

def third : Binary64 := 1 / 3
def sixth : Binary64 := 1 / 6
def half : Binary64 := 1 / 2
def twoThirds : Binary64 := 2 / 3

/-- A channel at a place of the colour circle, between two levels. -/
def circleChannel (low high hue : Binary64) : Binary64 :=
  let h := fractional hue
  if h.lt sixth then low + (high - low) * h * 6
  else if h.lt half then high
  else if h.lt twoThirds then low + (high - low) * (twoThirds - h) * 6
  else low

/-- A channel from a share of full brightness. -/
def ofShare (x : Binary64) : Int := nearest (x * 255)

/-- A colour from hue, lightness and saturation. -/
def ofLightness (hue lightness saturation : Binary64) : Colour :=
  if saturation.eq 0 then ⟨ofShare lightness, ofShare lightness, ofShare lightness⟩
  else
    let high :=
      if lightness.le half then lightness * (1 + saturation)
      else lightness + saturation - lightness * saturation
    let low := 2 * lightness - high
    ⟨ofShare (circleChannel low high (hue + third)), ofShare (circleChannel low high hue),
      ofShare (circleChannel low high (hue - third))⟩

/-- A colour from hue, saturation and brightness. -/
def ofBrightness (hue saturation value : Binary64) : Colour :=
  if saturation.eq 0 then ⟨ofShare value, ofShare value, ofShare value⟩
  else
    let sector := ((hue * 6).truncate?).getD 0
    let f := hue * 6 - Binary64.ofInt sector
    let p := ofShare (value * (1 - saturation))
    let q := ofShare (value * (1 - saturation * f))
    let t := ofShare (value * (1 - saturation * (1 - f)))
    let v := ofShare value
    match (sector % 6).toNat with
    | 0 => ⟨v, t, p⟩
    | 1 => ⟨q, v, p⟩
    | 2 => ⟨p, v, t⟩
    | 3 => ⟨p, q, v⟩
    | 4 => ⟨t, p, v⟩
    | _ => ⟨v, p, q⟩

/-- The form with three whole channels or three percentages. -/
def ofRgb? (cs : List Char) : Option Colour := do
  match ← arguments? "rgb" cs with
  | [r, g, b] =>
    (do return ⟨← channel? r, ← channel? g, ← channel? b⟩) <|> (do
      let r ← channel? (← beforePercent? r)
      let g ← channel? (← beforePercent? g)
      let b ← channel? (← beforePercent? b)
      return ⟨percentChannel r, percentChannel g, percentChannel b⟩)
  | _ => none

/-- The form with an opacity, which does not count. -/
def ofRgba? (cs : List Char) : Option Colour := do
  match ← arguments? "rgba" cs with
  | [r, g, b, a] =>
    let _ ← channel? a
    return ⟨← channel? r, ← channel? g, ← channel? b⟩
  | _ => none

/-- The arguments of a form with a hue and two percentages, as shares of one. -/
def hueArguments? (name : String) (cs : List Char) : Option (Binary64 × Binary64 × Binary64) := do
  match ← arguments? name cs with
  | [h, a, b] =>
    let h ← fraction? h
    let a ← fraction? (← beforePercent? a)
    let b ← fraction? (← beforePercent? b)
    return (h / 360, a / 100, b / 100)
  | _ => none

/-- One of the functional forms. -/
def ofFunction? (cs : List Char) : Option Colour :=
  ofRgb? cs <|>
  ((hueArguments? "hsl" cs).map fun (h, s, l) => ofLightness h l s) <|>
  ((hueArguments? "hsv" cs).map fun (h, s, v) => ofBrightness h s v) <|>
  ((hueArguments? "hsb" cs).map fun (h, s, v) => ofBrightness h s v) <|>
  ofRgba? cs

/-- The text without a line feed at its end. -/
def dropLineFeed (cs : List Char) : List Char :=
  if cs.getLast? == some '\n' then cs.dropLast else cs

/-- The longest text that can be a colour. -/
def lengthLimit : Nat := 100

/-- The colour that a text writes. -/
def ofText? (s : String) : Option Colour :=
  if lengthLimit < s.length then none
  else
    let s := lowercase s
    match palette.lookup s with
    | some n => some (ofBytes n)
    | none =>
      match dropLineFeed s.toList with
      | '#' :: cs => ofHex? cs
      | cs => ofFunction? cs

/-- The colour that a value gives; nothing is black. -/
def ofValue (d : Document) : Except Fault Colour :=
  match d.bare with
  | .scalar .null => .ok black
  | .sequence [r, g, b] => do
    let red ← r.toWhole
    let green ← g.toWhole
    let blue ← b.toWhole
    return ⟨red, green, blue⟩
  | .scalar (.text s) =>
    match ofText? s with
    | some c => .ok c
    | none => refuse (.colour s)
  | _ => do refuse (.colour (← d.shownText))

/-- The channels in order. -/
def toDocument (c : Colour) : Document := .sequence [.int c.red, .int c.green, .int c.blue]

end Colour

end StillVideo
