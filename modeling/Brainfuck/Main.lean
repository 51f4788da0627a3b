import Std.Time.Format
import Brainfuck.CommandLine

/-!
# The program on real streams

The outermost layer of the command line tool. It reads the environment and the files that an
invocation needs, and carries the console's traffic between a machine and the real streams:
before a step that may drain the output, the bytes held back are really written, and before a
step that reads, one byte is really read; the console's scripts tell the machine what came of
it.
-/

namespace Brainfuck.Main

/-- The name that the tool goes by. -/
def toolName : String := "bf"

/-- An error number of the operating system, also where it was given below zero. -/
def systemNumber (n : UInt32) : Nat :=
  if n.toNat < 0x80000000 then n.toNat else 0x100000000 - n.toNat

/-- The error number that the operating system gave, or the words if it gave none. -/
def ioError : IO.Error → IoError
  | .alreadyExists _ n _ | .otherError n _ | .resourceBusy n _ | .resourceVanished n _
  | .unsupportedOperation n _ | .hardwareFault n _ | .unsatisfiedConstraints n _
  | .illegalOperation n _ | .protocolError n _ | .timeExpired n _ | .interrupted _ n _
  | .noFileOrDirectory _ n _ | .invalidArgument _ n _ | .permissionDenied _ n _
  | .resourceExhausted _ n _ | .inappropriateType _ n _ | .noSuchThing _ n _ =>
    .system (systemNumber n)
  | .unexpectedEof => .bare .unexpectedEof
  | .userError words => .worded .other words

/-- The outcome of an action, with its error as a value. -/
def attempt {α : Type} (action : IO α) : IO (Except IoError α) := do
  match ← action.toBaseIO with
  | .ok a => return .ok a
  | .error e => return .error (ioError e)

/-- The bytes of the file at a path. -/
def readFile (path : Path) : IO (Except IoError (Array UInt8)) := do
  if 0 ∈ path then
    return .error (.worded .invalidInput "file name contained an unexpected NUL byte")
  match ← attempt (IO.FS.readBinFile path.text) with
  | .ok content => return .ok content.data
  | .error e => return .error e

/-- A store of files that has been asked for these paths. -/
def fetch (paths : List Path) : IO Files := do
  let contents ← paths.mapM fun path => do return (path, ← readFile path)
  return fun path => (contents.lookup path).getD (.error (.system 2))

/-- The variables of the environment that count. -/
def environment : IO Environment := do
  let get (name : String) : IO (Option Bytes) :=
    return (← IO.getEnv name).map Path.ofString
  return {
    config := ← get "BF_CONFIG"
    tapeSize := ← get "BF_TAPE_SIZE"
    quiet := ← get "BF_QUIET"
    log := ← get "BF_LOG"
    commonLog := ← get "RUST_LOG"
    configHome := ← get "XDG_CONFIG_HOME"
    home := ← get "HOME" }

/-- The time, to the microsecond, as log lines give it. -/
def now : IO String := do
  let instant ← Std.Time.Timestamp.now
  let date := Std.Time.DateTime.ofTimestamp instant Std.Time.TimeZone.ZoneRules.UTC
  return date.format "uuuu-MM-dd'T'HH:mm:ss.SSSSSS'Z'"

/-- A number of nanoseconds in seconds, with six decimals. -/
def seconds (nanos : Nat) : String :=
  let micros := (nanos + 500) / 1000
  let decimals := toString (micros % 1000000)
  toString (micros / 1000000) ++ "." ++
    String.ofList (List.replicate (6 - decimals.length) '0') ++ decimals

/-- Prints notices on standard error. -/
def printNotices (notices : List Notice) (duration : String) : IO Unit := do
  if notices.isEmpty then return
  for notice in notices do
    IO.eprint (notice.text (← now) duration)
  (← IO.getStderr).flush

/-- Writes the bytes held back to standard output, and tells the sink what came of it. An
interrupted write is tried again. -/
partial def deliver (m : Machine) : IO Machine := do
  let out ← IO.getStdout
  let answer ← attempt do
    out.write ⟨m.console.pending⟩
    out.flush
  match answer with
  | .ok _ => return { m with console.sink.accepted := #[] }
  | .error e =>
    if lasting : e.isInterrupted = false then
      return { m with console.sink.refusal := some ⟨e, lasting⟩ }
    else deliver m

/-- Reads one byte of standard input into the input script. -/
def receive (m : Machine) : IO Machine := do
  let input ← IO.getStdin
  let item ← match ← attempt (input.read 1) with
    | .error e => pure (InputItem.fail e)
    | .ok bytes =>
      match bytes.data.toList with
      | b :: _ => pure (InputItem.byte b)
      | [] => pure InputItem.endOfInput
  return { m with console.source.items := [item], console.calls := [] }

/-- Makes the real streams ready for the next step. -/
def ready (m : Machine) : IO Machine := do
  match m.program.opAt? m.ip with
  | some .output => if m.console.isFull then deliver m else return m
  | some .input =>
    let m ← deliver m
    if m.console.sink.refusal.isNone then receive m else return m
  | _ => return m

/-- Steps until one halts or fails. -/
partial def steps (shows : Event → Bool) (m : Machine) :
    IO (Except RunError Unit × Machine) := do
  let m ← ready m
  let ip := m.ip
  let op := m.program.opAt? ip
  match m.step with
  | (.ok .next, after) =>
    printNotices (shownEvents shows (Machine.stepEvent? ip op after).toList) ""
    steps shows after
  | (.ok .halted, after) => return (.ok (), ← deliver after)
  | (.error e, after) => return (.error e, ← deliver after)

/-- Runs a prepared machine, and prints what is to be said of it. -/
def run (p : Preparation) : IO UInt32 := do
  let before := p.notices ++ p.opening
  printNotices before ""
  let begun ← IO.monoNanosNow
  let (result, after) ← steps p.shows p.machine
  let ended ← IO.monoNanosNow
  let outcome := p.conclude result after []
  printNotices (outcome.notices.drop before.length) (seconds (ended - begun))
  return UInt32.ofNat outcome.exitCode

end Brainfuck.Main

open Brainfuck Brainfuck.Main in
def main (args : List String) : IO UInt32 := do
  let arguments := args.map Path.ofString
  let environment ← environment
  let file := (Conventions.plain.readArguments arguments).toOption.bind (·.file)
  let files ← fetch (environment.configPath?.toList ++ file.toList)
  let invocation : Invocation :=
    { name := toolName, arguments, environment, files, source := ⟨[], none⟩, sink := .accepting }
  match invocation.prepare with
  | .inl outcome =>
    printNotices outcome.notices ""
    return UInt32.ofNat outcome.exitCode
  | .inr preparation => run preparation
