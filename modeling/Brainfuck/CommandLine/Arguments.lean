import Brainfuck.Path
import Brainfuck.Text.Numeral
import Brainfuck.Text.Split

/-!
# Arguments

Reading the arguments of the command line: two switches, one option with a value, and one file.
Arguments are read from the left. A value, or the file, is looked at only when the next argument
is known for what it is, so an argument that is nothing known is refused before a bad value that
stands in front of it.

* `Options.read`: the options that the arguments give, or the first thing wrong with them.
* `ArgumentError.message`: what is said of it.
-/

namespace Brainfuck

/-- What the command line can be given. -/
inductive Parameter where
  | tapeSize
  | quiet
  | help
  | file
  deriving DecidableEq, Repr

/-- A parameter as diagnostics name it. -/
def Parameter.text : Parameter → String
  | .tapeSize => "--tape-size <N>"
  | .quiet => "--quiet"
  | .help => "--help"
  | .file => "[FILE]"

/-- What is wrong with the arguments. -/
inductive ArgumentError where
  /-- The argument is nothing known, or one file too many. -/
  | unexpected (argument : String)
  /-- The parameter lacks its value, or has an empty one where none can be. -/
  | missingValue (p : Parameter)
  /-- The tape size is no number. -/
  | invalidSize (value : String) (cause : NumeralError)
  /-- The parameter is given twice. -/
  | repeated (p : Parameter)
  /-- A switch has a value. -/
  | surplusValue (value : String) (p : Parameter)
  /-- A value is not text. -/
  | notText
  deriving DecidableEq, Repr

/-- What is said of arguments that cannot be accepted. -/
def ArgumentError.message : ArgumentError → String
  | .unexpected argument => "error: unexpected argument '" ++ argument ++ "' found"
  | .missingValue p => "error: a value is required for '" ++ p.text ++ "' but none was supplied"
  | .invalidSize value cause =>
    "error: invalid value '" ++ value ++ "' for '" ++ Parameter.tapeSize.text ++ "': " ++
      cause.message
  | .repeated p => "error: the argument '" ++ p.text ++ "' cannot be used multiple times"
  | .surplusValue value p =>
    "error: unexpected value '" ++ value ++ "' for '" ++ p.text ++
      "' found; no more were expected"
  | .notText => "error: invalid UTF-8 was detected in one or more arguments"

/-- What the arguments ask for. -/
structure Options where
  tapeSize : Option Nat := none
  quiet : Bool := false
  help : Bool := false
  file : Option Path := none
  deriving DecidableEq, Repr, Inhabited

namespace Options

/-- What has been read and not yet looked at. -/
inductive Pending where
  | nothing
  /-- The tape size, with its value if that has come. -/
  | size (value : Option Bytes)
  | file (path : Path)
  deriving DecidableEq, Repr

/-- A reader of arguments between two of them: the options so far, what is pending, and whether
a double dash has made every further argument a file. -/
structure Reader where
  options : Options := {}
  pending : Pending := .nothing
  literal : Bool := false
  deriving DecidableEq, Repr

namespace Reader

/-- Takes a tape size. -/
def takeSize (r : Reader) (value : Bytes) : Except ArgumentError Reader :=
  if r.options.tapeSize.isSome then .error (.repeated .tapeSize)
  else
    match Utf8.decode? value with
    | none => .error .notText
    | some text =>
      match Numeral.read text with
      | .ok n => .ok { r with options := { r.options with tapeSize := some n } }
      | .error cause => .error (.invalidSize (String.ofList text) cause)

/-- Looks at what is pending. -/
def settle (r : Reader) : Except ArgumentError Reader :=
  let done := { r with pending := .nothing }
  match r.pending with
  | .nothing => .ok done
  | .size none => .error (.missingValue .tapeSize)
  | .size (some value) => done.takeSize value
  | .file path =>
    if path = [] then .error (.missingValue .file)
    else .ok { done with options := { r.options with file := some path } }

/-- Takes the quiet switch. -/
def takeQuiet (r : Reader) : Except ArgumentError Reader := do
  let r ← r.settle
  if r.options.quiet then throw (.repeated .quiet)
  return { r with options := { r.options with quiet := true } }

/-- Takes the help switch. -/
def takeHelp (r : Reader) : Except ArgumentError Reader := do
  let r ← r.settle
  if r.options.help then throw (.repeated .help)
  return { r with options := { r.options with help := true } }

/-- Has a file been read? -/
def hasFile (r : Reader) : Bool :=
  r.options.file.isSome ||
    match r.pending with
    | .file _ => true
    | _ => false

/-- Reads an argument that is a file. -/
def readFile (r : Reader) (argument : Bytes) : Except ArgumentError Reader :=
  if r.hasFile then .error (.unexpected (Utf8.decodeLossy argument))
  else do
    let r ← r.settle
    return { r with pending := .file argument }

/-- Reads the letters behind a single dash. -/
def readLetters (r : Reader) : List (Option Char) → Except ArgumentError Reader
  | [] => .ok r
  | some 'q' :: rest => do (← r.takeQuiet).readLetters rest
  | some 'h' :: rest => do (← r.takeHelp).readLetters rest
  | some c :: _ => .error (.unexpected (String.ofList ['-', c]))
  | none :: rest =>
    .error (.unexpected (String.ofList ('-' :: (none :: rest).map (·.getD '\uFFFD'))))

/-- The byte between a long option and its value. -/
def equals : UInt8 := 0x3D

/-- Reads what stands behind a double dash: the name of a switch or of the option, and a value
behind an equals sign. -/
def readLong (r : Reader) (argument : Bytes) : Except ArgumentError Reader :=
  let name := argument.takeWhile (· != equals)
  let value := (argument.dropWhile (· != equals)).tail?
  if name = Path.ofString "tape-size" then do
    let r ← r.settle
    match value with
    | some value => r.takeSize value
    | none => return { r with pending := .size none }
  else if name = Path.ofString "quiet" then
    match value with
    | some value => .error (.surplusValue (Utf8.decodeLossy value) .quiet)
    | none => r.takeQuiet
  else if name = Path.ofString "help" then
    match value with
    | some value => .error (.surplusValue (Utf8.decodeLossy value) .help)
    | none => r.takeHelp
  else .error (.unexpected ("--" ++ Utf8.decodeLossy name))

/-- Reads an argument that starts with no dash, or is a lone dash: the value of an option that
waits for one, or the file. -/
def readPlain (r : Reader) (argument : Bytes) : Except ArgumentError Reader :=
  match r.pending with
  | .size none => .ok { r with pending := .size (some argument) }
  | _ => r.readFile argument

/-- The dash that starts a switch or an option. -/
def dash : UInt8 := 0x2D

/-- Reads an argument. -/
def read (r : Reader) (argument : Bytes) : Except ArgumentError Reader :=
  if r.literal then r.readFile argument
  else
    match argument with
    | a :: b :: rest =>
      if a = dash then
        if b = dash then
          if rest = [] then .ok { r with literal := true } else r.readLong rest
        else r.readLetters (Utf8.pieces (b :: rest)).toList
      else r.readPlain argument
    | _ => r.readPlain argument

end Reader

/-- The options that the arguments give. -/
def read (arguments : List Bytes) : Except ArgumentError Options := do
  let r ← arguments.foldlM Reader.read {}
  return (← r.settle).options

end Options

end Brainfuck
