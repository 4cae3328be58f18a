import StillVideo.Document

/-!
Faults: why a request is not carried out.

A `Refusal` is a fault that the program itself explains: the request contradicts a rule of clips,
sessions, projects or files. An `EncodeFailure` reports an encoder run that came to no good end. A
`HostFault` comes from the system that is asked to print, to write or to start something. The
remaining faults are conversions that have no result. `Fault.message` gives the wording.
-/

namespace StillVideo

/-- The rules that a request can break. -/
inductive Refusal
  | timeMissing
  | timeKind
  | timecode (raw : String)
  | percent (name : String)
  | fileNotFound (path : String)
  | clipSource
  | clipStart (source : String)
  | clipDuration (source : String)
  | clipTrimIn (source : String)
  | clipTrimOut (source : String)
  | trackVolume
  | image
  | noClips
  | audioDirectory (source : String)
  | noAudioFiles
  | durationCount
  | encoderLookup (reason : String)
  | durationUnreadable (path : String)
  | durationZero (path : String)
  | concatenation (code : Int)
  | colour (value : String)
  | documentSize
  | documentText (path : String)
  | documentKind
  | projectVersion
  | tracksMissing
  | pictureMissing
  | background
  | resolutionKind
  | resolutionSign
  | music
  | tracksKind
  | trackKind (index : Nat)
  | trackVolumeKind (index : Nat)
  | trackClipsKind (index : Nat)
  | clipKind (index : Nat)
  | clipSourceMissing (index : Nat)
  | clipLength (source : String)
  | outputKind
  | sessionUsed
  | body (text : String)
  deriving DecidableEq

namespace Refusal

/-- The wording of a refusal. -/
def message : Refusal → String
  | .timeMissing => "time value is required"
  | .timeKind => "time values must be int, float, or timecode string"
  | .timecode raw => "invalid timecode: " ++ raw
  | .percent name => name ++ " must be a number from 0 to 100"
  | .fileNotFound path => "file not found: " ++ path
  | .clipSource => "clip source file is required"
  | .clipStart source => "clip start must be >= 0: " ++ source
  | .clipDuration source => "clip duration must be > 0: " ++ source
  | .clipTrimIn source => "clip trim_in must be >= 0: " ++ source
  | .clipTrimOut source => "clip trim_out must be >= trim_in: " ++ source
  | .trackVolume => "track volume must be >= 0"
  | .image => "background image is required"
  | .noClips => "no audio clips in timeline"
  | .audioDirectory source => "could not determine audio directory for " ++ quoted source
  | .noAudioFiles => "no audio files provided"
  | .durationCount => "durations must match the audio file list"
  | .encoderLookup reason => "failed to acquire ffmpeg: " ++ reason
  | .durationUnreadable path => "could not read duration of " ++ path
  | .durationZero path => "audio file has no duration: " ++ path
  | .concatenation code => "failed to concatenate audio (exit code " ++ toString code ++ ")"
  | .colour value => "invalid color value: " ++ value
  | .documentSize => "yaml file is larger than 10MB"
  | .documentText path => "invalid yaml in " ++ path ++ ": malformed document"
  | .documentKind => "project yaml must be a mapping at the top level"
  | .projectVersion => "stillcast must be set to 1"
  | .tracksMissing => "missing required key: tracks"
  | .pictureMissing => "either image or background is required"
  | .background => "background must be a mapping with a color"
  | .resolutionKind => "resolution must be [width, height]"
  | .resolutionSign => "resolution must be positive"
  | .music => "music must be a file path or a mapping with file"
  | .tracksKind => "tracks must be a list"
  | .trackKind index => "tracks[" ++ toString index ++ "] must be a mapping"
  | .trackVolumeKind index => "tracks[" ++ toString index ++ "].volume must be a number"
  | .trackClipsKind index => "tracks[" ++ toString index ++ "].clips must be a list"
  | .clipKind index => "tracks[" ++ toString index ++ "] clips must be mappings"
  | .clipSourceMissing index => "tracks[" ++ toString index ++ "] clip is missing source"
  | .clipLength source => "clip " ++ source ++ " needs duration or trim_out"
  | .outputKind => "output must be a mapping"
  | .sessionUsed => "encode session already used"
  | .body text => text

end Refusal

/-- An encoder run that failed: a headline, the parameters of the session, the exit code if there
is one, whether the run was cancelled, and the last lines the encoder wrote. -/
structure EncodeFailure where
  headline : String
  context : List (Scalar × Document)
  exitCode : Document
  cancelled : Document
  diagnostics : List Document

/-- The last `n` elements. -/
def lastOf {α : Type} (n : Nat) (xs : List α) : List α := xs.drop (xs.length - n)

namespace EncodeFailure

/-- The session parameters that a report shows, in this order. -/
def shownParameters : List String :=
  ["inputs", "filter_complex", "fit_mode", "background_music"]

/-- The lines of the report: the headline, the parameters, the exit code and the last five lines of
encoder output. -/
def lines (e : EncodeFailure) : List String :=
  let parameters := shownParameters.filterMap fun key =>
    (Document.lookup key e.context).map fun d => "  " ++ key ++ ": " ++ d.display
  let code := if e.exitCode.isNull then [] else ["  exit code: " ++ e.exitCode.display]
  let output :=
    if e.diagnostics.isEmpty then []
    else "  last encoder output:" :: (lastOf 5 e.diagnostics).map ("    " ++ ·.display)
  e.headline :: parameters ++ code ++ output

/-- The report as one text. -/
def report (e : EncodeFailure) : String := "\n".intercalate e.lines

end EncodeFailure

/-- Why the system does not do what it is asked for: it reports an error, or the value that it is
given has no form in which the system could take it. -/
inductive HostFault
  | system (reason : String)
  | value (reason : String)
  deriving DecidableEq

/-- The wording of the system. -/
def HostFault.reason : HostFault → String
  | .system reason | .value reason => reason

/-- Why a request is not carried out: a refusal, an encoder run that failed, something that the
system does not do, or a value that cannot be used as it is asked for. -/
inductive Fault
  | refused (r : Refusal)
  | encode (e : EncodeFailure)
  | host (f : HostFault)
  | notReal (s : String)
  | notWhole (base : Nat) (literal : String)
  | digitsRead (count : Nat)
  | digitsShown
  | nanToWhole
  | signallingToReal
  | codePoint
  | calendar (f : CalendarFault)
  | pairLength
  | formatCode (kind : String)
  | pictureSize
  | negativeLength
  | realKind (kind : String)
  | wholeKind (kind : String)
  | pathKind (kind : String)
  | textKind (kind : String)
  | operandKind (kind : String)
  | patternKind
  | stringKind (kind : String)
  | formatKind (kind : String)
  | joinedKind (kind : String)
  | lengthless (kind : String)
  | uniterable (kind : String)
  | unhashable (kind : String)
  | infiniteToWhole
  | wholeToReal
  | codePointWord
  | longRange
  | wideRange
  | aboveInt
  | belowInt
  | countRange
  | unknownSource (source : String)
  | unknownState (state : String)
  | unknownWord (s : String)
  | emptyScalar
  | noPixel
  | pictureRoom
  | missingOperation (kind name : String)
  | nesting
  | decimal (f : DecimalFault)

/-- The families of faults. -/
inductive FaultKind
  | refusal | encode | value | type | range | key | index | operation | recursion | memory
  | decimalInvalid | decimalOverflow
  deriving DecidableEq

namespace Fault

/-- The family of a fault. What the system does not do is told apart by its `HostFault`; here it
counts among the values that cannot be used. -/
def kind : Fault → FaultKind
  | .refused _ => .refusal
  | .encode _ => .encode
  | .host _ => .value
  | .notReal _ | .notWhole .. | .digitsRead _ | .digitsShown | .nanToWhole | .signallingToReal
  | .codePoint | .calendar _ | .pairLength | .formatCode _ | .pictureSize
  | .negativeLength => .value
  | .realKind _ | .wholeKind _ | .pathKind _ | .textKind _ | .operandKind _ | .patternKind
  | .stringKind _ | .formatKind _ | .joinedKind _ | .lengthless _ | .uniterable _
  | .unhashable _ => .type
  | .infiniteToWhole | .wholeToReal | .codePointWord | .longRange | .wideRange | .aboveInt
  | .belowInt | .countRange => .range
  | .unknownSource _ | .unknownState _ | .unknownWord _ => .key
  | .emptyScalar | .noPixel => .index
  | .missingOperation .. => .operation
  | .nesting => .recursion
  | .pictureRoom => .memory
  | .decimal .invalid => .decimalInvalid
  | .decimal .overflow => .decimalOverflow

/-- What a number with more digits than allowed is told. -/
def digitLimitMessage (detail : String) : String :=
  "Exceeds the limit (" ++ toString digitLimit ++ " digits) for integer string conversion" ++
    detail ++ "; use sys.set_int_max_str_digits() to increase the limit"

/-- The wording of a fault. -/
def message : Fault → String
  | .refused r => r.message
  | .encode e => e.report
  | .host f => f.reason
  | .notReal s => "could not convert string to float: " ++ quoted s
  | .notWhole base literal =>
    "invalid literal for int() with base " ++ toString base ++ ": " ++ literal
  | .digitsRead count => digitLimitMessage (": value has " ++ toString count ++ " digits")
  | .digitsShown => digitLimitMessage ""
  | .nanToWhole => "cannot convert float NaN to integer"
  | .signallingToReal => "cannot convert signaling NaN to float"
  | .codePoint => "chr() arg not in range(0x110000)"
  | .calendar f => f.message
  | .pairLength => "dictionary update sequence element #0 has length 1; 2 is required"
  | .formatCode kind => "Unknown format code 'f' for object of type '" ++ kind ++ "'"
  | .pictureSize => "Width and height must be >= 0"
  | .negativeLength => "maxlen must be non-negative"
  | .realKind kind => "float() argument must be a string or a real number, not '" ++ kind ++ "'"
  | .wholeKind kind =>
    "int() argument must be a string, a bytes-like object or a real number, not '" ++ kind ++ "'"
  | .pathKind kind => "expected str, bytes or os.PathLike object, not " ++ kind
  | .textKind kind => "can only concatenate str (not \"" ++ kind ++ "\") to str"
  | .operandKind kind => "unsupported operand type: '" ++ kind ++ "'"
  | .patternKind => "cannot use a string pattern on a bytes-like object"
  | .stringKind kind => "expected string or bytes-like object, got '" ++ kind ++ "'"
  | .formatKind kind => "unsupported format string passed to " ++ kind ++ ".__format__"
  | .joinedKind kind => "sequence item 0: expected str instance, " ++ kind ++ " found"
  | .lengthless kind => "object of type '" ++ kind ++ "' has no len()"
  | .uniterable kind => "'" ++ kind ++ "' object is not iterable"
  | .unhashable kind => "unhashable type: '" ++ kind ++ "'"
  | .infiniteToWhole => "cannot convert float infinity to integer"
  | .wholeToReal => "int too large to convert to float"
  | .codePointWord => "Python int too large to convert to C int"
  | .longRange => "Python int too large to convert to C long"
  | .wideRange => "int too big to convert"
  | .aboveInt => "signed integer is greater than maximum"
  | .belowInt => "signed integer is less than minimum"
  | .countRange => "cannot fit 'int' into an index-sized integer"
  | .unknownSource source => quoted source
  | .unknownState state => quoted state
  | .unknownWord s => quoted s
  | .emptyScalar => "string index out of range"
  | .noPixel => "image index out of range"
  | .missingOperation kind name => "'" ++ kind ++ "' object has no attribute '" ++ name ++ "'"
  | .pictureRoom => ""
  | .nesting => "maximum recursion depth exceeded"
  | .decimal .invalid => "[<class 'decimal.InvalidOperation'>]"
  | .decimal .overflow => "[<class 'decimal.Overflow'>]"

/-- The program explains the fault itself. -/
def isExplained : Fault → Bool
  | .refused _ | .encode _ => true
  | _ => false

end Fault

/-- A fault that is a refusal. -/
def refuse {α : Type} (r : Refusal) : Except Fault α := .error (.refused r)

end StillVideo
