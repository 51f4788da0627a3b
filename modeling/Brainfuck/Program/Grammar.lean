import Brainfuck.Program

/-!
# Well-bracketed text

The grammar of texts in which every bracket has a partner, and the pairing of brackets that one
pass over a text finds. The scans of `Program.closerAfter?` and `Program.openerBefore?` work
from one bracket; here whole texts are looked at.

* `WellBracketed`: the texts that the grammar derives.
* `Pairing.ofText`: the pairs and the brackets left over, found with a stack of open brackets.
-/

namespace Brainfuck

/-- A text is empty, or starts with a comment or a command that is no bracket, or starts with a
loop, whose body is such a text too; the rest is such a text again. -/
inductive WellBracketed : List UInt8 → Prop where
  | nil : WellBracketed []
  | plain {b : UInt8} {rest : List UInt8} : b ≠ openByte → b ≠ closeByte →
      WellBracketed rest → WellBracketed (b :: rest)
  | loop {body rest : List UInt8} : WellBracketed body → WellBracketed rest →
      WellBracketed (openByte :: body ++ closeByte :: rest)

/-- What one pass has found of the brackets of a text. -/
structure Pairing where
  /-- The opens that wait for their partner, the innermost first. -/
  waiting : List Nat
  /-- The pairs of an open and its close. -/
  pairs : List (Nat × Nat)
  /-- The closes that had no open to go with. -/
  leftOver : List Nat
  deriving DecidableEq, Repr

namespace Pairing

/-- Nothing found yet. -/
def none : Pairing := ⟨[], [], []⟩

/-- Looks at one more byte, which stands at index `i`. -/
def look (p : Pairing) (i : Nat) (b : UInt8) : Pairing :=
  if b = openByte then { p with waiting := i :: p.waiting }
  else if b = closeByte then
    match p.waiting with
    | j :: rest => { p with waiting := rest, pairs := (j, i) :: p.pairs }
    | [] => { p with leftOver := i :: p.leftOver }
  else p

/-- Looks at the bytes of a text that stands at index `i`. -/
def lookAll (p : Pairing) (i : Nat) : List UInt8 → Pairing
  | [] => p
  | b :: rest => (p.look i b).lookAll (i + 1) rest

/-- The pairing of a whole text. -/
def ofText (text : List UInt8) : Pairing := none.lookAll 0 text

/-- The close that the pass pairs with an open. -/
def closer? (p : Pairing) (i : Nat) : Option Nat :=
  (p.pairs.find? fun pair => pair.1 == i).map (·.2)

/-- The open that the pass pairs with a close. -/
def opener? (p : Pairing) (j : Nat) : Option Nat :=
  (p.pairs.find? fun pair => pair.2 == j).map (·.1)

end Pairing

end Brainfuck
