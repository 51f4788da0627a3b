import Brainfuck.IoError
import Brainfuck.Program.Brackets

/-!
# Run errors

The ways in which a run can end before the end of its program, each with the index of the
instruction at fault. A cancelled run has none: it stops between two instructions.

* `RunError.message`: the error in one sentence.
* `RunError.headline`: the error as the first line of a report, without its position.
-/

namespace Brainfuck

/-- Why a run ended early. -/
inductive RunError where
  /-- The instruction would have moved the cursor off the tape. -/
  | outOfBounds (ip cursor : Nat) (op : Opcode)
  /-- A jump had to be taken, and its bracket has no partner. -/
  | unmatchedBracket (ip : Nat) (side : Side)
  /-- The output refused a byte or a flush. -/
  | output (ip : Nat) (cause : IoError)
  /-- The run was cancelled. -/
  | interrupted
  deriving DecidableEq, Repr

namespace RunError

/-- The index of the instruction at fault, where there is one. -/
def ip? : RunError → Option Nat
  | .outOfBounds ip _ _ => some ip
  | .unmatchedBracket ip _ => some ip
  | .output ip _ => some ip
  | .interrupted => none

/-- Is this a failure, and not a stop that was asked for? -/
def isFatal : RunError → Bool
  | .interrupted => false
  | _ => true

/-- The error in one sentence. -/
def message : RunError → String
  | .outOfBounds ip cursor op =>
    "Pointer out of bounds at instruction " ++ toString ip ++ " (ptr=" ++ toString cursor ++
      ", op='" ++ op.text ++ "')"
  | .unmatchedBracket ip side =>
    "Unmatched bracket " ++ side.text ++ " at instruction " ++ toString ip
  | .output ip cause => "Output error at instruction " ++ toString ip ++ ": " ++ cause.message
  | .interrupted => "Execution aborted: interrupted"

/-- The error as a report announces it. -/
def headline : RunError → String
  | .outOfBounds _ cursor op =>
    "Runtime error: pointer out of bounds (ptr=" ++ toString cursor ++ ", op=" ++ op.text ++ ")"
  | .unmatchedBracket _ side => "Runtime error: unmatched bracket " ++ side.text
  | .output _ cause => "I/O error: " ++ cause.message
  | .interrupted => "aborted"

end RunError

end Brainfuck
