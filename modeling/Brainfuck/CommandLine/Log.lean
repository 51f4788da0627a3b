import Brainfuck.RunError
import Brainfuck.Settings

/-!
# The log

What is recorded on the way of a run, each event with a level. Which events are shown, and how a
line of the log looks, is settled elsewhere; here is what a log of one level shows, and one look of
a line.

* `Event.level`, `Event.text`: the level of an event, and its fields in words.
* `Level.filter?`: what a log shows that is told one level.
* `Event.line`: a line with the time and the level in front.
-/

namespace Brainfuck

/-- How much is shown, from nothing to everything. -/
inductive Level where
  | off
  | error
  | warn
  | info
  | debug
  | trace
  deriving DecidableEq, Repr

namespace Level

/-- The place of a level in the order from nothing to everything. -/
def rank : Level → Nat
  | .off => 0
  | .error => 1
  | .warn => 2
  | .info => 3
  | .debug => 4
  | .trace => 5

/-- The name of a level. -/
def name : Level → String
  | .off => "OFF"
  | .error => "ERROR"
  | .warn => "WARN"
  | .info => "INFO"
  | .debug => "DEBUG"
  | .trace => "TRACE"

/-- All levels. -/
def all : List Level := [.off, .error, .warn, .info, .debug, .trace]

/-- The level with a name or a rank, where the case of letters does not count. -/
def ofName? (s : List Char) : Option Level :=
  all.find? fun l => l.name.toList == s.map Char.toUpper || (toString l.rank).toList == s

end Level

/-- What is recorded. -/
inductive Event where
  | configLoaded (path : Path)
  | tapeSizeRefused (value : List Char)
  | settingsResolved (settings : Settings)
  | programLoaded (path : Path) (size : Nat)
  | runStarted (size capacity : Nat)
  | loopSkipped (source target : Nat)
  | loopRepeated (source target : Nat)
  | inputEnded (ip : Nat)
  | readFailed (ip : Nat) (cause : IoError)
  | runFinished (ip : Nat)
  | runFailed (ip : Nat) (cause : RunError)

namespace Event

/-- The level of an event. -/
def level : Event → Level
  | .tapeSizeRefused _ => .warn
  | .loopSkipped .. | .loopRepeated .. | .inputEnded _ | .readFailed .. => .trace
  | _ => .debug

/-- Is the event shown in a log of this level? -/
def isShown (e : Event) (log : Level) : Bool := e.level.rank ≤ log.rank

/-- The event and its fields in words. -/
def text : Event → String
  | .configLoaded path => "loaded config file path=" ++ path.text
  | .tapeSizeRefused value =>
    "ignoring invalid tape_size in config file value=" ++ String.ofList value
  | .settingsResolved settings => "resolved configuration config=" ++ settings.text
  | .programLoaded path size =>
    "loaded program path=" ++ path.text ++ " size=" ++ toString size
  | .runStarted size capacity =>
    "run started program_len=" ++ toString size ++ " tape_size=" ++ toString capacity
  | .loopSkipped source target =>
    "skip loop from=" ++ toString source ++ " to=" ++ toString target
  | .loopRepeated source target =>
    "repeat loop from=" ++ toString source ++ " to=" ++ toString target
  | .inputEnded ip => "end of input ip=" ++ toString ip
  | .readFailed ip cause =>
    "input read failed ip=" ++ toString ip ++ " error=" ++ cause.message
  | .runFinished ip => "run finished ip=" ++ toString ip
  | .runFailed ip cause => "run failed ip=" ++ toString ip ++ " error=" ++ cause.message

/-- The line of an event: the time, the level in a column of five, and the words. -/
def line (e : Event) (time : String) : String :=
  let name := e.level.name
  time ++ " " ++ String.ofList (List.replicate (5 - name.length) ' ') ++ name ++ " " ++ e.text

end Event

/-- The events of a log of one level, if the text is a level. -/
def Level.filter? (s : List Char) : Option (Event → Bool) :=
  (ofName? s).map fun log e => e.isShown log

end Brainfuck
