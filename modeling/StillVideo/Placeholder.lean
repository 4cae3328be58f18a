import StillVideo.Colour
import StillVideo.Machine

/-!
The picture of one colour that stands in for a picture that a project does not have.
-/

namespace StillVideo

-- Powers are those of the core library, whatever else is imported.
attribute [local instance (2000)] instPowNat

/-- A channel within a byte. -/
def byteChannel (n : Int) : Int := max 0 (min n 255)

/-- The number fits into a signed word of so many bits. -/
def fitsWord (bits : Nat) (n : Int) : Bool := -(2 ^ (bits - 1) : Int) ≤ n && n < 2 ^ (bits - 1)

/-- Numbers for a picture are words of 32 bits. -/
def requireShort (n : Int) : Except Fault Unit :=
  if !fitsWord 64 n then .error .longRange
  else if fitsWord 32 n then .ok ()
  else .error (if n < 0 then .belowInt else .aboveInt)

/-- The widest picture that has room. -/
def widthLimit : Int := 536870910

/-- The size of a picture: not negative, and there must be room for it. -/
def requireSize (width height : Int) : Except Fault Unit := do
  if width < 0 ∨ height < 0 then throw .pictureSize
  requireShort width
  requireShort height
  if widthLimit < width then throw .pictureRoom

/-- The channels of a picture; the first one may be wider than the others. -/
def requireChannels (c : Colour) : Except Fault Unit := do
  if !fitsWord 64 c.red then throw .wideRange
  requireShort c.green
  requireShort c.blue

/-- What a picture of one colour shows: its size, and its channels as bytes. -/
def pictureText (width height : Int) (c : Colour) : String :=
  "RGB " ++ toString width ++ "x" ++ toString height ++ " " ++
    toString (byteChannel c.red) ++ "," ++ toString (byteChannel c.green) ++ "," ++
    toString (byteChannel c.blue)

/-- Draws a picture of one colour into a file. -/
def drawPlaceholder (colour : Document) (path : String) (width height : Document) :
    Job String := do
  let c ← Job.ofExcept (Colour.ofValue colour)
  let w ← Job.ofExcept width.toWhole
  let h ← Job.ofExcept height.toWhole
  Job.ofExcept (requireSize w h)
  Job.ofExcept (requireChannels c)
  if w = 0 ∨ h = 0 then throw .noPixel
  Job.act (.drew path (pictureText w h c))
  modify (·.withFile path .media)
  return path

end StillVideo
