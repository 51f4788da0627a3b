import Brainfuck.CommandLine.Conventions
import Brainfuck.CommandLine.Notice
import Brainfuck.Machine
import Brainfuck.Report

/-!
# The command line tool

From an invocation to what it leaves behind: an exit code, the bytes on standard output and the
notices on standard error.

* `Invocation.prepare`: all that comes before the program runs.
* `Preparation.conclude`: all that comes after it.
* `Invocation.run`: the whole.
-/

namespace Brainfuck

/-- What the tool is started with. Standard error is taken to work, and so it is no part of this. -/
structure Invocation where
  /-- The name that it is called by. -/
  name : String
  arguments : List Bytes
  environment : Environment
  files : Files
  /-- Standard input. -/
  source : Source
  /-- Standard output. -/
  sink : Sink
  conventions : Conventions := .plain

/-- What an invocation leaves behind. -/
structure Outcome where
  exitCode : Nat
  output : Array UInt8
  notices : List Notice

/-- A program about to be run, and the notices up to there. -/
structure Preparation where
  name : String
  settings : Settings
  /-- The events that the log shows. -/
  shows : Event → Bool
  machine : Machine
  notices : List Notice

/-- The bytes held back before they are written to standard output. -/
def outputCapacity : Nat := 8192

/-- The events that the log shows, as notices. -/
def shownEvents (shows : Event → Bool) (events : List Event) : List Notice :=
  (events.filter shows).map .event

/-- Notices that only inform, unless they are to be left out. -/
def informing (settings : Settings) (notices : List Notice) : List Notice :=
  if settings.quiet then [] else notices

/-- What is recorded of reading the settings file. -/
def settingsEvents (env : Environment) (files : Files) (directory? : Option Path) :
    List Event :=
  match Settings.fileText? env files directory? with
  | none => []
  | some (path, text) =>
    match FileSettings.refusedTapeSize? text with
    | none => [.configLoaded path]
    | some value => [.configLoaded path, .tapeSizeRefused value]

namespace Invocation

/-- All that comes before the program runs: either the invocation is over, or a machine is ready.
Asking for help, and asking for nothing, shows how the tool is used; a program that cannot be
read is told of. None of these is a failure. -/
def prepare (i : Invocation) : Outcome ⊕ Preparation :=
  match i.conventions.readArguments i.arguments with
  | .error words => .inl ⟨2, #[], [.refused words]⟩
  | .ok options =>
    match options.help, options.file with
    | true, _ | false, none => .inl ⟨0, #[], [.usage i.name]⟩
    | false, some path =>
      let shows := i.conventions.shows i.environment
      let directory? := i.conventions.settingsDirectory? i.environment
      let settings :=
        Settings.resolve options.tapeSize options.quiet i.environment i.files directory?
      let resolved := shownEvents shows
        (settingsEvents i.environment i.files directory? ++ [.settingsResolved settings])
      match Program.load i.files path with
      | .error error => .inl ⟨0, #[], resolved ++ [.unreadable i.name error]⟩
      | .ok program =>
        .inr {
          name := i.name
          settings
          shows
          machine := .start program (.blank settings.tapeSize)
            (.make i.source i.sink (some outputCapacity)) true
          notices := resolved ++ shownEvents shows [.programLoaded path program.size] ++
            informing settings [.loaded program.size, .running] }

end Invocation

namespace Machine

/-- What the step that began at `ip` with `op` leaves in the log: a jump, or a read that found
no byte. -/
def stepEvent? (ip : Nat) (op : Option Opcode) (after : Machine) : Option Event :=
  match op with
  | some .openLoop => if after.ip = ip + 1 then none else some (.loopSkipped ip after.ip)
  | some .closeLoop => if after.ip = ip + 1 then none else some (.loopRepeated ip after.ip)
  | some .input =>
    match after.console.calls with
    | .read _ _ .endOfInput :: _ => some (.inputEnded ip)
    | .read _ _ (.failed cause) :: _ => some (.readFailed ip cause)
    | _ => none
  | _ => none

/-- Steps as `Machine.steps` does, and collects what they leave in the log, the latest first. -/
def watchedSteps (fuel : Nat) (m : Machine) (events : List Event) :
    Option (Except RunError Unit × Machine × List Event) :=
  match fuel with
  | 0 => none
  | fuel + 1 =>
    let ip := m.ip
    let op := m.program.opAt? ip
    match m.step with
    | (.ok .next, after) =>
      watchedSteps fuel after ((stepEvent? ip op after).toList ++ events)
    | (.ok .halted, after) => some (.ok (), after, events)
    | (.error e, after) => some (.error e, after, events)

end Machine

namespace Preparation

/-- What is recorded when the run begins. -/
def opening (p : Preparation) : List Notice :=
  shownEvents p.shows [.runStarted p.machine.program.size p.machine.tape.capacity]

/-- What is recorded when the run is over, whatever the last flush answers. -/
def closing (result : Except RunError Unit) (after : Machine) : Event :=
  match result with
  | .ok _ => .runFinished after.ip
  | .error e => .runFailed after.ip e

/-- All that comes after the program has run: the last flush, the notices and the exit code. When
the console is given up at the end, what it still holds back is offered once more, and nobody
asks what came of that. -/
def conclude (p : Preparation) (result : Except RunError Unit) (after : Machine)
    (events : List Event) : Outcome :=
  let (final, after) := after.finish result
  let notices := p.notices ++ p.opening ++
    shownEvents p.shows (events.reverse ++ [closing result after])
  let output := after.console.drain.2.sink.accepted
  match final with
  | .ok _ => ⟨0, output, notices ++ informing p.settings [.done]⟩
  | .error e =>
    let report := (report? (some p.name) after.program e).getD ""
    ⟨if e.isFatal then 1 else 0, output, notices ++ [.failed report]⟩

/-- The run, if `fuel` steps are enough for it. -/
def run (fuel : Nat) (p : Preparation) : Option Outcome :=
  (p.machine.watchedSteps fuel []).map fun (result, after, events) =>
    p.conclude result after events

end Preparation

/-- What the invocation leaves behind, if `fuel` steps are enough for its program. -/
def Invocation.run (fuel : Nat) (i : Invocation) : Option Outcome :=
  match i.prepare with
  | .inl outcome => some outcome
  | .inr preparation => preparation.run fuel

/-- Standard error, with the time of each log line, the duration of the run, and the look of a log
line. -/
def Outcome.errorText (o : Outcome) (time duration : String)
    (line : Event → String → String := Event.line) : String :=
  String.join (o.notices.map (·.text time duration line))

end Brainfuck
