import Brainfuck.Opcode

/-!
# Programs

A program is its bytes, kept exactly as they were given. Nothing is checked when a program
is made: comments stay, and brackets need not pair.
-/

namespace Brainfuck

/-- Program text. -/
structure Program where
  bytes : Array UInt8
  deriving DecidableEq, Inhabited

namespace Program

/-- The program written as a string. -/
def ofString (s : String) : Program := ⟨s.toUTF8.data⟩

/-- The number of bytes, comments included. -/
def size (p : Program) : Nat := p.bytes.size

/-- Is there no text at all? -/
def isEmpty (p : Program) : Bool := p.size == 0

/-- The byte at an index, if the text reaches that far. -/
def byteAt? (p : Program) (i : Nat) : Option UInt8 := p.bytes[i]?

/-- The effect of the byte at an index, if the text reaches that far. -/
def opAt? (p : Program) (i : Nat) : Option Opcode := (p.byteAt? i).map Opcode.ofByte

theorem byteAt?_eq_none_iff (p : Program) (i : Nat) : p.byteAt? i = none ↔ p.size ≤ i := by
  simp [byteAt?, size]

theorem byteAt?_of_lt (p : Program) {i : Nat} (h : i < p.bytes.size) :
    p.byteAt? i = some p.bytes[i] := by
  simp [byteAt?, h]

theorem opAt?_eq_some_iff {p : Program} {i : Nat} {op : Opcode} :
    p.opAt? i = some op ↔ ∃ b, p.byteAt? i = some b ∧ Opcode.ofByte b = op :=
  Option.map_eq_some_iff

end Program

end Brainfuck
