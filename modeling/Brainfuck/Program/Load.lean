import Brainfuck.Path
import Brainfuck.Program

/-!
# Loading a program

A program is the bytes of its file, whatever they are.
-/

namespace Brainfuck

/-- A program file that could not be read. -/
structure LoadError where
  path : Path
  cause : IoError
  deriving DecidableEq, Repr

/-- What is said of a program file that could not be read. -/
def LoadError.message (e : LoadError) : String :=
  "could not open " ++ e.path.text ++ ": " ++ e.cause.message

/-- The program in the file at a path. -/
def Program.load (files : Files) (path : Path) : Except LoadError Program :=
  match files path with
  | .ok bytes => .ok ⟨bytes⟩
  | .error cause => .error ⟨path, cause⟩

end Brainfuck
