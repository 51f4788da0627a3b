/-!
# Opcodes

Program text is a string of bytes. Eight of them are commands; every other byte is a
comment and does nothing.

* `Opcode.ofByte`: the effect of a byte.
* `Opcode.symbol?`: the character a command is written with.
-/

namespace Brainfuck

/-- The byte that opens a loop. -/
abbrev openByte : UInt8 := 0x5B

/-- The byte that closes a loop. -/
abbrev closeByte : UInt8 := 0x5D

/-- The effect of one byte of program text. -/
inductive Opcode where
  /-- Move the cursor one cell to the right. -/
  | moveRight
  /-- Move the cursor one cell to the left. -/
  | moveLeft
  /-- Add one to the current cell. -/
  | increment
  /-- Take one from the current cell. -/
  | decrement
  /-- Write the current cell to the output. -/
  | output
  /-- Read one byte of input into the current cell. -/
  | input
  /-- On a zero cell, jump past the matching close. -/
  | openLoop
  /-- On a nonzero cell, jump back to just past the matching open. -/
  | closeLoop
  /-- Do nothing. -/
  | noOp
  deriving DecidableEq, Repr

namespace Opcode

/-- The effect of a byte: a comment unless it is one of the eight command characters. -/
def ofByte (b : UInt8) : Opcode :=
  if b = 0x3E then .moveRight
  else if b = 0x3C then .moveLeft
  else if b = 0x2B then .increment
  else if b = 0x2D then .decrement
  else if b = 0x2E then .output
  else if b = 0x2C then .input
  else if b = openByte then .openLoop
  else if b = closeByte then .closeLoop
  else .noOp

/-- The character a command is written with. -/
def symbol? : Opcode → Option Char
  | .moveRight => some '>'
  | .moveLeft => some '<'
  | .increment => some '+'
  | .decrement => some '-'
  | .output => some '.'
  | .input => some ','
  | .openLoop => some '['
  | .closeLoop => some ']'
  | .noOp => none

/-- An opcode as diagnostics show it. -/
def text (op : Opcode) : String :=
  match op.symbol? with
  | some c => c.toString
  | none => "no-op"

theorem ofByte_symbol (op : Opcode) (c : Char) (h : op.symbol? = some c) :
    ofByte c.toUInt8 = op := by
  cases op <;> simp only [symbol?, Option.some.injEq, reduceCtorEq] at h <;> subst h <;> decide

/-- No other byte is taken for a command. -/
theorem eq_of_ofByte {b : UInt8} {op : Opcode} {c : Char} (h : ofByte b = op)
    (hc : op.symbol? = some c) : b = c.toUInt8 := by
  subst h
  unfold ofByte at hc
  repeat' split at hc
  all_goals first | (cases hc; assumption) | cases hc

end Opcode

end Brainfuck
