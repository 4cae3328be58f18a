import StillVideo.Document

/-!
Arguments of a command.

An option is a letter, a word, or both, and either stands alone or takes a value. Letters may be
written together behind one dash, a value may follow at once or behind an equals sign, and a word
may be cut short as long as it is clear which one is meant. Two dashes as a value that follows at
once are no value: the option gets an empty list. `readArguments` first decides of each argument
what it is, and then applies the options in order; what nobody asked for is kept.
-/

namespace StillVideo

/-- What an option does to settings: it sets them, it takes a value of some kind that may be no such
value, or it asks for help. -/
inductive OptionEffect (σ : Type)
  | flag (set : σ → σ)
  | value (kind : String) (read : String → Option Document) (set : Document → σ → σ)
  | help

/-- An option by its letter and its word. -/
structure OptionSpec (σ : Type) where
  letter : Option Char
  word : String
  effect : OptionEffect σ

/-- Why arguments are not accepted; a request for help is none of the user's faults. -/
inductive UsageFault
  | help
  | ambiguous (argument : String) (words : List String)
  | valueMissing (option : String)
  | valueIgnored (option value : String)
  | valueKind (option kind value : String)
  | optionMissing (option : String)
  | unrecognized (arguments : List String)
  | nothingToDo
  deriving DecidableEq, Repr

namespace UsageFault

/-- The wording of a usage fault. -/
def message : UsageFault → String
  | .help => ""
  | .ambiguous argument words =>
    "ambiguous option: " ++ argument ++ " could match " ++ ", ".intercalate words
  | .valueMissing option => "argument " ++ option ++ ": expected one argument"
  | .valueIgnored option value =>
    "argument " ++ option ++ ": ignored explicit argument " ++ quoted value
  | .valueKind option kind value =>
    "argument " ++ option ++ ": invalid " ++ kind ++ " value: " ++ quoted value
  | .optionMissing option => "the following arguments are required: " ++ option
  | .unrecognized arguments => "unrecognized arguments: " ++ " ".intercalate arguments
  | .nothingToDo => "use -y project.yaml, or -i image with one or more -a audio"

/-- The exit code for a usage fault. -/
def exitCode : UsageFault → Int
  | .help => 0
  | _ => 2

end UsageFault

namespace OptionSpec

variable {σ : Type}

/-- The word as it is written. -/
def dashedWord (o : OptionSpec σ) : String := "--" ++ o.word

/-- The name of an option in messages. -/
def name (o : OptionSpec σ) : String :=
  match o.letter with
  | some c => "-" ++ String.singleton c ++ "/" ++ o.dashedWord
  | none => o.dashedWord

/-- The option takes a value. -/
def takesValue (o : OptionSpec σ) : Bool :=
  match o.effect with
  | .value .. => true
  | _ => false

end OptionSpec

/-- An option that was used, with its value. -/
structure OptionUse (σ : Type) where
  option : OptionSpec σ
  value : String

/-- Two dashes, which stand for no value. -/
def noValue : String := "--"

/-- Applies an option. -/
def OptionUse.apply {σ : Type} (settings : σ) (u : OptionUse σ) : Except UsageFault σ :=
  match u.option.effect with
  | .flag set => .ok (set settings)
  | .help => .error .help
  | .value kind read set =>
    if u.value == noValue then .ok (set (.sequence []) settings)
    else
      match read u.value with
      | some d => .ok (set d settings)
      | none => .error (.valueKind u.option.name kind u.value)

/-- What an argument turns out to be: something to be read by itself, the mark that ends all
options, a known option by its word or by its letter with what follows it, or an option that nobody
knows. -/
inductive ArgumentKind (σ : Type)
  | plain
  | separator
  | word (option : OptionSpec σ) (value : Option String)
  | letter (option : OptionSpec σ) (behind : Option (List Char))
  | unknown

namespace ArgumentKind

variable {σ : Type}

/-- The option of a letter. -/
def findLetter (table : List (OptionSpec σ)) (c : Char) : Option (OptionSpec σ) :=
  table.find? (·.letter == some c)

/-- A negative number, which is no option; a line end may follow it. -/
def isNegativeNumber (cs : List Char) : Bool :=
  let cs := if cs.getLast? == some '\n' then cs.dropLast else cs
  match cs with
  | '-' :: cs =>
    let whole := cs.takeWhile isDecimalDigit
    match cs.dropWhile isDecimalDigit with
    | [] => !whole.isEmpty
    | '.' :: fraction => !fraction.isEmpty && fraction.all isDecimalDigit
    | _ => false
  | _ => false

/-- A text before the first equals sign, and the text behind it if there is one. -/
def cutValue (cs : List Char) : List Char × Option (List Char) :=
  match cs.dropWhile (· != '=') with
  | [] => (cs, none)
  | _ :: value => (cs.takeWhile (· != '='), some value)

/-- What begins with a dash and is no known option. -/
def ofOther (cs : List Char) : ArgumentKind σ :=
  if isNegativeNumber cs || cs.contains ' ' then .plain else .unknown

/-- A word behind two dashes: a whole word, or the beginning of exactly one. -/
def ofWord (table : List (OptionSpec σ)) (argument : String) :
    Except UsageFault (ArgumentKind σ) :=
  let (start, value) := cutValue (argument.toList.drop 2)
  let value := value.map String.ofList
  match table.find? (·.dashedWord == argument) with
  | some o => .ok (.word o none)
  | none =>
    match table.find? (·.word == String.ofList start), value with
    | some o, some v => .ok (.word o (some v))
    | _, _ =>
      match table.filter fun o => start.isPrefixOf o.word.toList with
      | [] => .ok (ofOther argument.toList)
      | [o] => .ok (.word o value)
      | os => .error (.ambiguous argument (os.map (·.dashedWord)))

/-- Decides what an argument is. -/
def ofArgument (table : List (OptionSpec σ)) (argument : String) :
    Except UsageFault (ArgumentKind σ) :=
  match argument.toList with
  | '-' :: '-' :: _ => ofWord table argument
  | '-' :: c :: cs =>
    match findLetter table c, cs with
    | none, _ => .ok (ofOther argument.toList)
    | some o, [] => .ok (.letter o none)
    | some o, '=' :: value => .ok (.letter o (some value))
    | some o, cs => .ok (.letter o (some cs))
  | _ => .ok .plain

/-- Decides what all arguments are; behind a separator there are no options. -/
def ofArguments (table : List (OptionSpec σ)) :
    List String → Except UsageFault (List (String × ArgumentKind σ))
  | [] => .ok []
  | a :: as =>
    if a == "--" then .ok ((a, .separator) :: as.map (·, .plain))
    else do
      let kind ← ofArgument table a
      return (a, kind) :: (← ofArguments table as)

end ArgumentKind

/-- What an option argument comes to: the options used in it, and whether the last one still needs a
value or what is left over at the end. -/
inductive OptionRest (σ : Type)
  | complete
  | needsValue (option : OptionSpec σ)
  | leftOver (text : String)

/-- The option of a letter with what follows it: its value, or more letters if it takes none. -/
def readLetters {σ : Type} (table : List (OptionSpec σ)) (o : OptionSpec σ) :
    List Char → Except UsageFault (List (OptionUse σ) × OptionRest σ)
  | [] => .error (.valueIgnored o.name "")
  | c :: cs =>
    match ArgumentKind.findLetter table c, cs with
    | none, _ => .error (.valueIgnored o.name (String.ofList (c :: cs)))
    | some next, [] =>
      if next.takesValue then .ok ([⟨o, ""⟩], .needsValue next)
      else .ok ([⟨o, ""⟩, ⟨next, ""⟩], .complete)
    | some next, d :: ds =>
      if next.takesValue then .ok ([⟨o, ""⟩, ⟨next, String.ofList (d :: ds)⟩], .complete)
      else do
        let (uses, rest) ← readLetters table next (d :: ds)
        return (⟨o, ""⟩ :: uses, rest)

/-- The option of a letter. -/
def readLetter {σ : Type} (table : List (OptionSpec σ)) (o : OptionSpec σ)
    (behind : Option (List Char)) : Except UsageFault (List (OptionUse σ) × OptionRest σ) :=
  match o.takesValue, behind with
  | true, some cs => .ok ([⟨o, String.ofList cs⟩], .complete)
  | true, none => .ok ([], .needsValue o)
  | false, some cs => readLetters table o cs
  | false, none => .ok ([⟨o, ""⟩], .complete)

/-- The option of a word. -/
def readWord {σ : Type} (o : OptionSpec σ) (value : Option String) :
    Except UsageFault (List (OptionUse σ) × OptionRest σ) :=
  match o.takesValue, value with
  | true, some v => .ok ([⟨o, v⟩], .complete)
  | true, none => .ok ([], .needsValue o)
  | false, some v => .error (.valueIgnored o.name v)
  | false, none => .ok ([⟨o, ""⟩], .complete)

/-- The options used in one argument; what is none of the options is left over. -/
def readArgument {σ : Type} (table : List (OptionSpec σ)) (argument : String) :
    ArgumentKind σ → Except UsageFault (List (OptionUse σ) × OptionRest σ)
  | .word o value => readWord o value
  | .letter o behind => readLetter table o behind
  | .plain | .separator | .unknown => .ok ([], .leftOver argument)

/-- A step of reading arguments: options to apply, a text to keep, or a fault that ends it. -/
inductive ArgumentStep (σ : Type)
  | apply (uses : List (OptionUse σ))
  | keep (text : String)
  | fail (fault : UsageFault)

/-- The steps of reading arguments. An option that needs a value takes the next argument if that is
none of the options. -/
def argumentSteps {σ : Type} (table : List (OptionSpec σ)) :
    List (String × ArgumentKind σ) → List (ArgumentStep σ)
  | [] => []
  | (argument, kind) :: rest =>
    match readArgument table argument kind with
    | .error fault => [.fail fault]
    | .ok (uses, .complete) => .apply uses :: argumentSteps table rest
    | .ok (uses, .leftOver text) => .apply uses :: .keep text :: argumentSteps table rest
    | .ok (uses, .needsValue o) =>
      match rest with
      | (value, .plain) :: rest => .apply (uses ++ [⟨o, value⟩]) :: argumentSteps table rest
      | _ => [.fail (.valueMissing o.name)]

/-- Carries out steps, and gives the settings and the texts that were kept. -/
def applySteps {σ : Type} (settings : σ) :
    List (ArgumentStep σ) → Except UsageFault (σ × List String)
  | [] => .ok (settings, [])
  | .fail fault :: _ => .error fault
  | .keep text :: steps => do
    let (settings, extra) ← applySteps settings steps
    return (settings, text :: extra)
  | .apply uses :: steps => do applySteps (← uses.foldlM OptionUse.apply settings) steps

/-- Reads arguments into settings, and gives those that nobody knows. -/
def readArguments {σ : Type} (table : List (OptionSpec σ)) (settings : σ)
    (arguments : List String) :
    Except UsageFault (σ × List String) := do
  applySteps settings (argumentSteps table (← ArgumentKind.ofArguments table arguments))

/-- Nothing may be left over. -/
def refuseExtra (extra : List String) : Except UsageFault Unit :=
  if extra.isEmpty then .ok () else .error (.unrecognized extra)

end StillVideo
