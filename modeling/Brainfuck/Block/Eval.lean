import Brainfuck.Block

/-!
# The meaning of blocks

What a block does, said by recursion on the tree and with no index of a next instruction: a
loop looks at the current cell, runs its body, and looks again. Nothing here is said in words of
the machine. Cells are a list and a number, bytes have a table of their own, and a cell counts
as its number modulo 256. Input is a list of bytes that ends, and output is taken as it comes.

* `Block.act`: one byte.
* `Block.Eval`: a block, from the state before it to how it ends.
-/

namespace Brainfuck

namespace Block

/-- What a block works on: the cells and the index of the current one, the input that is left,
and the output so far. -/
@[ext]
structure State where
  cells : List UInt8
  cursor : Nat
  cursor_lt : cursor < cells.length
  input : List UInt8
  output : List UInt8
  deriving DecidableEq

namespace State

/-- The current cell. -/
def cell (s : State) : UInt8 :=
  have := s.cursor_lt
  s.cells[s.cursor]

/-- The state with another byte in the current cell. -/
def setCell (s : State) (b : UInt8) : State where
  cells := s.cells.set s.cursor b
  cursor := s.cursor
  cursor_lt := by simpa using s.cursor_lt
  input := s.input
  output := s.output

end State

/-- How a block ends: at its own end, or at a move off the cells, which happened at an index of
the text with the cursor on a cell. -/
inductive Ending where
  | reached (s : State)
  | fell (ip cursor : Nat) (op : Opcode)

/-- What a byte does that is no bracket. A move off the cells fails. At the end of the input a
read leaves the cell as it was. -/
def act (b : UInt8) (s : State) : Except Opcode State :=
  if b = '>'.toUInt8 then
    if h : s.cursor + 1 < s.cells.length then
      .ok { s with cursor := s.cursor + 1, cursor_lt := h }
    else .error .moveRight
  else if b = '<'.toUInt8 then
    if 0 < s.cursor then
      .ok { s with
        cursor := s.cursor - 1, cursor_lt := Nat.lt_of_le_of_lt (Nat.sub_le _ _) s.cursor_lt }
    else .error .moveLeft
  else if b = '+'.toUInt8 then .ok (s.setCell (.ofNat ((s.cell.toNat + 1) % 256)))
  else if b = '-'.toUInt8 then .ok (s.setCell (.ofNat ((s.cell.toNat + 255) % 256)))
  else if b = '.'.toUInt8 then .ok { s with output := s.output ++ [s.cell] }
  else if b = ','.toUInt8 then
    match s.input with
    | [] => .ok s
    | read :: rest => .ok { s.setCell read with input := rest }
  else .ok s

/-- A block whose text stands at index `i`, from the state before it to how it ends. A block
that runs for ever has no ending. -/
inductive Eval : Nat → Block → State → Ending → Prop where
  | empty {i : Nat} {s : State} : Eval i .empty s (.reached s)
  | plain {i : Nat} {b : PlainByte} {next : Block} {s s' : State} {e : Ending} :
      act b.byte s = .ok s' → Eval (i + 1) next s' e → Eval i (.plain b next) s e
  | fall {i : Nat} {b : PlainByte} {next : Block} {s : State} {op : Opcode} :
      act b.byte s = .error op → Eval i (.plain b next) s (.fell i s.cursor op)
  | skip {i : Nat} {body next : Block} {s : State} {e : Ending} :
      s.cell = 0 → Eval (i + body.text.length + 2) next s e → Eval i (.loop body next) s e
  | again {i : Nat} {body next : Block} {s s' : State} {e : Ending} :
      s.cell ≠ 0 → Eval (i + 1) body s (.reached s') → Eval i (.loop body next) s' e →
      Eval i (.loop body next) s e
  | fallInside {i ip cursor : Nat} {op : Opcode} {body next : Block} {s : State} :
      s.cell ≠ 0 → Eval (i + 1) body s (.fell ip cursor op) →
      Eval i (.loop body next) s (.fell ip cursor op)

end Block

end Brainfuck
