import Brainfuck.RunError

/-!
# Reports

What is printed of a failed run: a line that says what happened and where, a window of the
program text around the place, and a caret below it.

* `Excerpt.around?`: the window and the caret for a position.
* `report?`: the whole report of a run error.

Positions are 64-bit indices. The window's end is reckoned before it is cut to the text, so a
position so high that this end is no index has no excerpt.
-/

namespace Brainfuck

/-- The number of indices: one more than the greatest. -/
def indexBound : Nat := 0x10000000000000000

/-- A line of program text and a line that points into it. -/
structure Excerpt where
  window : String
  caret : String
  deriving DecidableEq, Repr

namespace Excerpt

/-- The number of bytes shown on either side of the position. -/
def radius : Nat := 32

/-- A byte as a window shows it: a space unless it is a visible ASCII character, so that the
window stays on one line with one column a byte. -/
def shown (b : UInt8) : Char :=
  if 0x21 ≤ b ∧ b ≤ 0x7E then Char.ofNat b.toNat else ' '

/-- The first index of the window. -/
def start (pos : Nat) : Nat := pos - radius

/-- The index just past the window, if the text reaches that far. -/
def stop (pos : Nat) : Nat := pos + radius + 1

/-- The bytes within the radius of a position, and a caret in the position's column. -/
def around? (code : Program) (pos : Nat) : Option Excerpt :=
  if stop pos < indexBound then
    let bytes := code.bytes.extract (start pos) (min (stop pos) code.size)
    some {
      window := String.ofList (bytes.toList.map shown)
      caret := String.ofList (List.replicate (pos - start pos) ' ' ++ ['^']) }
  else none

end Excerpt

/-- Three lines: the subject with a position, and the indented excerpt around it. -/
def locatedReport? (subject : String) (code : Program) (pos : Nat) : Option String :=
  (Excerpt.around? code pos).map fun e =>
    subject ++ " at instruction " ++ toString pos ++ "\n" ++
      "  " ++ e.window ++ "\n" ++ "  " ++ e.caret ++ "\n"

/-- The report of a run error, under the reporter's name if there is one. An error without a
position is one line. -/
def report? (reporter : Option String) (code : Program) (error : RunError) : Option String :=
  let subject :=
    match reporter with
    | some name => name ++ ": " ++ error.headline
    | none => error.headline
  match error.ip? with
  | some ip => locatedReport? subject code ip
  | none => some (subject ++ "\n")

end Brainfuck
