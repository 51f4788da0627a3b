import Brainfuck.Console
import Brainfuck.RunError
import Brainfuck.Tape

/-!
# The machine

A program, a tape, the index of the next instruction and a console. A step fetches one
instruction, moves the index past it and carries it out. The index moves even when the
instruction fails, so a later step goes on behind it.

* `Machine.step`: one step, with its outcome.
* `Machine.run`: steps until the program ends or a step fails, then a flush of the output.
* `Machine.perform`: the actions that a caller can take, as data.
-/

namespace Brainfuck

/-- A machine between two instructions. -/
structure Machine where
  program : Program
  tape : Tape
  /-- The index of the next instruction. -/
  ip : Nat
  console : Console
  /-- Does the machine heed the cancel flag? -/
  heeds : Bool
  deriving DecidableEq

/-- How a step that did not fail ended. -/
inductive Step where
  /-- An instruction was carried out. -/
  | next
  /-- There was no instruction left. -/
  | halted
  deriving DecidableEq, Repr

namespace Machine

/-- A machine before its first instruction. -/
def start (program : Program) (tape : Tape) (console : Console) (heeds : Bool) : Machine :=
  { program, tape, ip := 0, console, heeds }

/-- Has the machine been asked to stop, and does it listen? -/
def isCancelled (m : Machine) : Bool := m.heeds && m.console.flag.cancelled

/-- Asks the machine to stop. -/
def cancel (m : Machine) : Machine := { m with console := m.console.cancel }

/-- A read in which the cancel flag tells that the machine waits. -/
def awaitRead (c : Console) (heeds : Bool) : ReadResult × Console :=
  if heeds then
    let (answer, after) := (c.await true).read
    (answer, after.await false)
  else c.read

/-- Writes the current cell. -/
def outputCell (m : Machine) : Except RunError Unit × Machine :=
  match m.console.put m.tape.read with
  | (.ok _, console) => (.ok (), { m with ip := m.ip + 1, console })
  | (.error e, console) => (.error (.output m.ip e), { m with ip := m.ip + 1, console })

/-- Reads a byte into the current cell. The output is flushed first, so that nothing is held
back while the machine waits; a cancelled machine does not begin to wait. At the end of input,
and when the read fails, the cell stays as it is. -/
def inputCell (m : Machine) : Except RunError Unit × Machine :=
  match m.console.flush with
  | (.error e, console) => (.error (.output m.ip e), { m with ip := m.ip + 1, console })
  | (.ok _, console) =>
    if m.heeds && console.flag.cancelled then (.ok (), { m with ip := m.ip + 1, console })
    else
      match awaitRead console m.heeds with
      | (.byte b, console) => (.ok (), { m with ip := m.ip + 1, tape := m.tape.write b, console })
      | (_, console) => (.ok (), { m with ip := m.ip + 1, console })

/-- Carries out the instruction at the index, which the step has fetched. -/
def execute (m : Machine) (op : Opcode) : Except RunError Unit × Machine :=
  match op with
  | .moveRight =>
    match m.tape.advance with
    | .ok tape => (.ok (), { m with ip := m.ip + 1, tape })
    | .error e => (.error (.outOfBounds m.ip e.cursor op), { m with ip := m.ip + 1 })
  | .moveLeft =>
    match m.tape.retreat with
    | .ok tape => (.ok (), { m with ip := m.ip + 1, tape })
    | .error e => (.error (.outOfBounds m.ip e.cursor op), { m with ip := m.ip + 1 })
  | .increment => (.ok (), { m with ip := m.ip + 1, tape := m.tape.increment })
  | .decrement => (.ok (), { m with ip := m.ip + 1, tape := m.tape.decrement })
  | .output => m.outputCell
  | .input => m.inputCell
  | .openLoop =>
    if m.tape.read = 0 then
      match m.program.closerAfter? m.ip with
      | some j => (.ok (), { m with ip := j + 1 })
      | none => (.error (.unmatchedBracket m.ip .opening), { m with ip := m.ip + 1 })
    else (.ok (), { m with ip := m.ip + 1 })
  | .closeLoop =>
    if m.tape.read = 0 then (.ok (), { m with ip := m.ip + 1 })
    else
      match m.program.openerBefore? m.ip with
      | some i => (.ok (), { m with ip := i + 1 })
      | none => (.error (.unmatchedBracket m.ip .closing), { m with ip := m.ip + 1 })
  | .noOp => (.ok (), { m with ip := m.ip + 1 })

/-- One step. A cancelled machine does nothing, not even at the end of its program. -/
def step (m : Machine) : Except RunError Step × Machine :=
  if m.isCancelled then (.error .interrupted, m)
  else if h : m.ip < m.program.bytes.size then
    match m.execute (Opcode.ofByte m.program.bytes[m.ip]) with
    | (.ok _, after) => (.ok .next, after)
    | (.error e, after) => (.error e, after)
  else (.ok .halted, m)

/-- Flushes the output. A failure is laid to the instruction that would come next. -/
def flush (m : Machine) : Except RunError Unit × Machine :=
  match m.console.flush with
  | (.ok _, console) => (.ok (), { m with console })
  | (.error e, console) => (.error (.output m.ip e), { m with console })

/-- Steps until one halts or fails, at most `fuel` of them; none if that is not enough. -/
def steps (fuel : Nat) (m : Machine) : Option (Except RunError Unit × Machine) :=
  match fuel with
  | 0 => none
  | fuel + 1 =>
    match m.step with
    | (.ok .next, after) => steps fuel after
    | (.ok .halted, after) => some (.ok (), after)
    | (.error e, after) => some (.error e, after)

/-- Ends a run: flushes the output, whatever the result. The error of the flush counts only
if nothing failed before it. -/
def finish (result : Except RunError Unit) (m : Machine) : Except RunError Unit × Machine :=
  let (flushed, after) := m.flush
  match result with
  | .ok _ => (flushed, after)
  | .error e => (.error e, after)

/-- A run, if `fuel` steps are enough for it. -/
def run (fuel : Nat) (m : Machine) : Option (Except RunError Unit × Machine) :=
  (m.steps fuel).map fun (result, after) => after.finish result

/-- What a caller can do with a machine. -/
inductive Action where
  | step
  | run
  | cancel
  deriving DecidableEq, Repr

/-- What an action answered. -/
inductive Answer where
  | stepped (result : Except RunError Step)
  | ran (result : Except RunError Unit)
  | cancelled
  deriving DecidableEq

/-- Takes an action; none if it is a run that `fuel` steps do not finish. -/
def perform (fuel : Nat) (m : Machine) : Action → Option (Answer × Machine)
  | .step =>
    let (result, after) := m.step
    some (.stepped result, after)
  | .run => (m.run fuel).map fun (result, after) => (.ran result, after)
  | .cancel => some (.cancelled, m.cancel)

end Machine

end Brainfuck
