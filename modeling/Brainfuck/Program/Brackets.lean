import Brainfuck.Program

/-!
# Finding the partner of a bracket

Pairs are not stored. A jump scans the text from its own bracket, counting how deep it is
in nested loops, and stops at the first bracket of the other kind met at depth zero. So a
bracket without a partner goes unnoticed until a jump needs it.

* `Program.closerAfter?`, `Program.openerBefore?`: the two scans.
* `Program.seekForward`, `Program.seekBackward`: where a jump from just past a bracket lands.
-/

namespace Brainfuck

/-- The two brackets of a loop. -/
inductive Side where
  | opening
  | closing
  deriving DecidableEq, Repr

/-- A bracket as diagnostics show it, in quotes. -/
def Side.text : Side → String
  | .opening => "'['"
  | .closing => "']'"

/-- Why a seek gives no position. -/
inductive SeekError where
  /-- The byte before the given index is not the bracket that the seek starts from. -/
  | notAtBracket
  /-- The scan left the text before the depth came back to zero. -/
  | unmatched (side : Side)
  deriving DecidableEq, Repr

namespace Program

/-- Scans the last `left` bytes of the text for the close that ends the current loop.
`depth` counts the loops opened since the scan began. -/
def scanRight (p : Program) : (left : Nat) → left ≤ p.bytes.size → (depth : Nat) → Option Nat
  | 0, _, _ => none
  | left + 1, h, depth =>
    let pos := p.bytes.size - (left + 1)
    have : pos < p.bytes.size := Nat.sub_lt_of_pos_le (Nat.succ_pos left) h
    let b := p.bytes[pos]
    if b = openByte then p.scanRight left (Nat.le_of_succ_le h) (depth + 1)
    else if b = closeByte then
      match depth with
      | 0 => some pos
      | depth + 1 => p.scanRight left (Nat.le_of_succ_le h) depth
    else p.scanRight left (Nat.le_of_succ_le h) depth

/-- Scans the first `left` bytes of the text, from the last of them down, for the open that
starts the current loop. `depth` counts the loops closed since the scan began. -/
def scanLeft (p : Program) : (left : Nat) → left ≤ p.bytes.size → (depth : Nat) → Option Nat
  | 0, _, _ => none
  | left + 1, h, depth =>
    have : left < p.bytes.size := h
    let b := p.bytes[left]
    if b = closeByte then p.scanLeft left (Nat.le_of_succ_le h) (depth + 1)
    else if b = openByte then
      match depth with
      | 0 => some left
      | depth + 1 => p.scanLeft left (Nat.le_of_succ_le h) depth
    else p.scanLeft left (Nat.le_of_succ_le h) depth

/-- The close that matches an open at `i`: the first close to the right of `i` at depth zero. -/
def closerAfter? (p : Program) (i : Nat) : Option Nat :=
  p.scanRight (p.bytes.size - (i + 1)) (Nat.sub_le _ _) 0

/-- The open that matches a close at `j`: the first open to the left of `j` at depth zero. -/
def openerBefore? (p : Program) (j : Nat) : Option Nat :=
  p.scanLeft (min j p.bytes.size) (Nat.min_le_right _ _) 0

/-- Where a skipped loop goes on: just past the close that matches the open at `ip - 1`. -/
def seekForward (p : Program) (ip : Nat) : Except SeekError Nat :=
  if 0 < ip ∧ p.byteAt? (ip - 1) = some openByte then
    match p.closerAfter? (ip - 1) with
    | some j => .ok (j + 1)
    | none => .error (.unmatched .opening)
  else .error .notAtBracket

/-- Where a repeated loop goes on: just past the open that matches the close at `ip - 1`. -/
def seekBackward (p : Program) (ip : Nat) : Except SeekError Nat :=
  if 0 < ip ∧ p.byteAt? (ip - 1) = some closeByte then
    match p.openerBefore? (ip - 1) with
    | some i => .ok (i + 1)
    | none => .error (.unmatched .closing)
  else .error .notAtBracket

end Program

end Brainfuck
