import StillVideo.Yaml.Token

/-!
The forms of scalars, and the kinds that they have.

Every node has a tag that tells its kind. A plain scalar without a tag gets the tag of the first
form that its text has: truth value, floating number, whole number, merge key, nothing, date. A line
feed at the end of the text does not change its form.
-/

namespace StillVideo.Yaml

/-- The kinds of nodes. -/
inductive Tag
  | null | bool | int | float | timestamp | binary | text | merge | value | sequence | mapping
  | members | pairs
  | foreign (name : String)
  deriving DecidableEq, Repr

namespace Tag

/-- The common beginning of the tags that every document knows. -/
def commonLead : String := "tag:yaml.org,2002:"

/-- The names of the kinds behind the common beginning. -/
def names : List (String × Tag) :=
  [("null", .null), ("bool", .bool), ("int", .int), ("float", .float), ("timestamp", .timestamp),
   ("binary", .binary), ("str", .text), ("merge", .merge), ("value", .value), ("seq", .sequence),
   ("map", .mapping), ("set", .members), ("omap", .pairs), ("pairs", .pairs)]

/-- The kind that a full tag names. -/
def ofName (name : String) : Tag :=
  ((names.find? fun e => commonLead ++ e.1 == name).map (·.2)).getD (.foreign name)

/-- The kind for a tag that is given; the bare mark and no tag at all leave it open. -/
def given (tag : Option String) (default : Tag) : Tag :=
  match tag with
  | none => default
  | some "!" => default
  | some name => ofName name

end Tag

/-! ## Numbers and words -/

def isDigitOrUnderscore (c : Char) : Bool := c.isDigit || c == '_'

/-- One or two digits that count minutes or seconds. -/
def isSixtieth : List Char → Bool
  | [d] => d.isDigit
  | [t, d] => '0' ≤ t && t ≤ '5' && d.isDigit
  | _ => false

/-- A leading sign does not matter for the form. -/
def dropSign : List Char → List Char
  | '-' :: cs => cs
  | '+' :: cs => cs
  | cs => cs

/-- A letter, a sign and digits. -/
def isExponent : List Char → Bool
  | [] => true
  | e :: s :: digits =>
    (e == 'e' || e == 'E') && (s == '-' || s == '+') && !digits.isEmpty && digits.all Char.isDigit
  | _ => false

/-- Whole numbers: binary, hexadecimal, octal, decimal, and decimal with sixtieths. -/
def isIntForm (cs : List Char) : Bool :=
  match dropSign cs with
  | ['0'] => true
  | '0' :: 'b' :: ds => !ds.isEmpty && ds.all fun c => c == '0' || c == '1' || c == '_'
  | '0' :: 'x' :: ds => !ds.isEmpty && ds.all fun c => isHexDigit c || c == '_'
  | '0' :: ds => ds.all fun c => ('0' ≤ c && c ≤ '7') || c == '_'
  | d :: ds =>
    '1' ≤ d && d ≤ '9' &&
      match splitFields ':' ds with
      | head :: parts => head.all isDigitOrUnderscore && parts.all isSixtieth
      | [] => false
  | [] => false

/-- Digits, a point, and perhaps an exponent; the point may come first if there is no sign. -/
def isPointForm (cs : List Char) : Bool :=
  match dropSign cs with
  | '.' :: d :: ds =>
    cs.head? == some '.' && d.isDigit && isExponent (ds.dropWhile isDigitOrUnderscore)
  | d :: ds =>
    d.isDigit &&
      match ds.dropWhile isDigitOrUnderscore with
      | '.' :: fs => isExponent (fs.dropWhile isDigitOrUnderscore)
      | _ => false
  | [] => false

/-- Decimal digits with sixtieths, the last of them with a point. -/
def isSixtiethForm (cs : List Char) : Bool :=
  match splitFields ':' (dropSign cs) with
  | (d :: ds) :: parts =>
    d.isDigit && ds.all isDigitOrUnderscore &&
      match parts.reverse with
      | last :: middle =>
        middle.all isSixtieth &&
          match splitFields '.' last with
          | [whole, fraction] => isSixtieth whole && fraction.all isDigitOrUnderscore
          | _ => false
      | [] => false
  | _ => false

/-- Floating numbers, infinities and the word for no number. -/
def isFloatForm (cs : List Char) : Bool :=
  isPointForm cs || isSixtiethForm cs ||
    [".inf", ".Inf", ".INF"].contains (String.ofList (dropSign cs)) ||
    [".nan", ".NaN", ".NAN"].contains (String.ofList cs)

/-- The words for true. -/
def trueWords : List String := ["yes", "Yes", "YES", "true", "True", "TRUE", "on", "On", "ON"]

/-- The words for false. -/
def falseWords : List String := ["no", "No", "NO", "false", "False", "FALSE", "off", "Off", "OFF"]

/-! ## Dates -/

/-- The numbers of a time of day and its zone as they are written: the digits of a fraction, and
nothing, the mark of universal time, or a sign with hours and minutes. -/
structure WrittenClock where
  hour : List Char
  minute : List Char
  second : List Char
  fraction : List Char
  zone : Option (Option (Bool × List Char × List Char))

/-- The numbers of a date as they are written, and perhaps a time of day. -/
structure WrittenMoment where
  year : List Char
  month : List Char
  day : List Char
  clock : Option WrittenClock

/-- Between `least` and `most` digits in front, as many as possible, and the rest. -/
def takeDigits (least most : Nat) (cs : List Char) : Option (List Char × List Char) :=
  let digits := (cs.take most).takeWhile Char.isDigit
  if digits.length < least then none else some (digits, cs.drop digits.length)

/-- The rest behind an expected character. -/
def expect (c : Char) : List Char → Option (List Char)
  | d :: cs => if c == d then some cs else none
  | [] => none

/-- A zone: nothing, the letter for universal time, or a signed offset in hours and minutes. -/
def readZone (cs : List Char) : Option (Option (Option (Bool × List Char × List Char))) :=
  match cs.dropWhile fun c => c == ' ' || c == '\t' with
  | [] => if cs.isEmpty then some none else none
  | ['Z'] => some (some none)
  | s :: rest =>
    if s == '+' || s == '-' then do
      let (hours, rest) ← takeDigits 1 2 rest
      match rest with
      | [] => return some (some (s == '-', hours, []))
      | _ =>
        let (minutes, rest) ← takeDigits 2 2 (← expect ':' rest)
        if rest.isEmpty then return some (some (s == '-', hours, minutes)) else none
    else none

/-- A time of day, perhaps with a fraction and a zone, and nothing behind it. -/
def readClock? (cs : List Char) : Option WrittenClock := do
  let (hour, cs) ← takeDigits 1 2 cs
  let (minute, cs) ← takeDigits 2 2 (← expect ':' cs)
  let (second, cs) ← takeDigits 2 2 (← expect ':' cs)
  let (fraction, cs) := match cs with
    | '.' :: rest => (rest.takeWhile Char.isDigit, rest.dropWhile Char.isDigit)
    | _ => ([], cs)
  return ⟨hour, minute, second, fraction, ← readZone cs⟩

/-- What stands between a date and a time of day: the letter `t`, or spaces and tabs. -/
def skipClockMark? : List Char → Option (List Char)
  | t :: rest =>
    if t == 'T' || t == 't' then some rest
    else if t == ' ' || t == '\t' then some (rest.dropWhile fun c => c == ' ' || c == '\t')
    else none
  | [] => none

/-- A date, and perhaps a time of day. -/
def readMoment? (cs : List Char) : Option WrittenMoment := do
  let (year, cs) ← takeDigits 4 4 cs
  let (month, cs) ← takeDigits 1 2 (← expect '-' cs)
  let (day, cs) ← takeDigits 1 2 (← expect '-' cs)
  if cs.isEmpty then return ⟨year, month, day, none⟩
  else return ⟨year, month, day, some (← readClock? (← skipClockMark? cs))⟩

/-- Without a time of day, a date shows its form by two digits each for month and day. -/
def isMomentForm (cs : List Char) : Bool :=
  (readMoment? cs).any fun w => w.clock.isSome || (w.month.length == 2 && w.day.length == 2)

/-! ## The form of a text -/

/-- A text without one line feed at its end. -/
def dropLineFeed (cs : List Char) : List Char :=
  if cs.getLast? == some '\n' then cs.dropLast else cs

/-- The tag of a plain scalar without one. -/
def plainTag (s : String) : Tag :=
  let cs := dropLineFeed s.toList
  let word := String.ofList cs
  if s == "" then .null
  else if cs.isEmpty then .text
  else if trueWords.contains word || falseWords.contains word then .bool
  else if isFloatForm cs then .float
  else if isIntForm cs then .int
  else if word == "<<" then .merge
  else if ["~", "null", "Null", "NULL"].contains word then .null
  else if isMomentForm cs then .timestamp
  else if word == "=" then .value
  else .text

end StillVideo.Yaml
