import Brainfuck.Machine
import Brainfuck.Proofs.Scan

/-!
# Machines that check

The machine once more, as a computer runs it whose numbers end at `top`. Nothing is promised of
its state: the index may lie past the text, and the cursor past the cells. So every look at the
text and at a cell is checked, as are every sum, every difference and every assertion. A check
that fails is a panic, which breaks off the computation.

The scans for a bracket are loops that move a position and keep a depth.

* `Program.scanForward`, `Program.scanBackward`: the loops, with the checks of each round.
* `Program.scanForward_eq`, `Program.scanBackward_eq`: the loops pass their checks, and find what
  the scans find.
* `RawTape`, `RawMachine`: the state, without promises.
* `RawMachine.step`, `RawMachine.run`, `RawMachine.performAll`: the machine that checks.
-/

namespace Brainfuck

/-- Why a computation is broken off. -/
inductive Panic where
  /-- An index past the end of the text. -/
  | textIndex
  /-- A cursor past the last cell. -/
  | cellIndex
  /-- A sum that is larger than the largest number, or a difference below zero. -/
  | overflow
  /-- An assertion that does not hold. -/
  | assertion
  deriving DecidableEq, Repr

/-- Goes on if the condition holds. -/
def check (c : Prop) [Decidable c] (panic : Panic) : Except Panic Unit :=
  if c then .ok () else .error panic

@[simp] theorem Panic.ok_bind {α β : Type} (a : α) (f : α → Except Panic β) :
    (Except.ok a >>= f) = f a := rfl

theorem check_of {c : Prop} [Decidable c] (h : c) (panic : Panic) : check c panic = .ok () :=
  if_pos h

namespace Program

/-- The byte at an index. -/
def checkedByte (p : Program) (i : Nat) : Except Panic UInt8 :=
  match p.byteAt? i with
  | some b => .ok b
  | none => .error .textIndex

/-- The loop of the scan to the right. `pos` is where it has got to, and `depth` counts the loops
that are still open. -/
def scanForward (top : Nat) (p : Program) (pos depth : Nat) : Except Panic (Except Side Nat) :=
  if depth = 0 then do
    check (pos + 1 ≤ top) .overflow
    return .ok (pos + 1)
  else do
    check (pos + 1 ≤ top) .overflow
    if h : p.bytes.size ≤ pos + 1 then return .error .opening
    else
      let b ← p.checkedByte (pos + 1)
      if b = openByte then
        check (depth + 1 ≤ top) .overflow
        scanForward top p (pos + 1) (depth + 1)
      else if b = closeByte then
        check (1 ≤ depth) .overflow
        scanForward top p (pos + 1) (depth - 1)
      else scanForward top p (pos + 1) depth
termination_by p.bytes.size - pos

/-- The loop of the scan to the left. -/
def scanBackward (top : Nat) (p : Program) (pos depth : Nat) : Except Panic (Except Side Nat) :=
  if depth = 0 then do
    check (pos + 1 ≤ top) .overflow
    return .ok (pos + 1)
  else if h : pos = 0 then return .error .closing
  else do
    check (1 ≤ pos) .overflow
    let b ← p.checkedByte (pos - 1)
    if b = closeByte then
      check (depth + 1 ≤ top) .overflow
      scanBackward top p (pos - 1) (depth + 1)
    else if b = openByte then
      check (1 ≤ depth) .overflow
      scanBackward top p (pos - 1) (depth - 1)
    else scanBackward top p (pos - 1) depth
termination_by pos

/-- Where a skipped loop goes on. The byte before the index has to be an open. -/
def checkedSeekForward (top : Nat) (p : Program) (ip : Nat) : Except Panic (Except Side Nat) := do
  check (0 < ip) .assertion
  let b ← p.checkedByte (ip - 1)
  check (b = openByte) .assertion
  check (1 ≤ ip) .overflow
  p.scanForward top (ip - 1) 1

/-- Where a repeated loop goes on. The byte before the index has to be a close. -/
def checkedSeekBackward (top : Nat) (p : Program) (ip : Nat) : Except Panic (Except Side Nat) := do
  check (0 < ip) .assertion
  let b ← p.checkedByte (ip - 1)
  check (b = closeByte) .assertion
  check (1 ≤ ip) .overflow
  p.scanBackward top (ip - 1) 1

/-- What a seek answers, by the bracket that it looks for. -/
def landing (side : Side) (found : Option Nat) : Except Side Nat :=
  match found with
  | some j => .ok (j + 1)
  | none => .error side

variable {p : Program} {top pos depth : Nat}

theorem checkedByte_of_lt (h : pos < p.bytes.size) : p.checkedByte pos = .ok p.bytes[pos] := by
  rw [checkedByte, byteAt?_of_lt p h]

/-- **The scan to the right passes all its checks.** The depth never gets ahead of the position,
and the position stays inside the text. -/
theorem scanForward_eq (hp : p.bytes.size ≤ top) (hpos : pos < p.bytes.size)
    (hdepth : depth ≤ pos) :
    p.scanForward top pos (depth + 1) = .ok (landing .opening
      ((partner? openByte closeByte depth (p.text.drop (pos + 1))).map (· + (pos + 1)))) := by
  induction hleft : p.bytes.size - (pos + 1) generalizing pos depth with
  | zero =>
    have hend : p.bytes.size ≤ pos + 1 := by omega
    rw [scanForward, if_neg (by omega), check_of (by omega), dif_pos hend,
      List.drop_eq_nil_of_le (by simpa using hend)]
    rfl
  | succ left ih =>
    have hnext : pos + 1 < p.bytes.size := by omega
    -- what is found behind the next position is found one further on
    have hrest : (· + (pos + 1)) ∘ (· + 1) = (· + (pos + 1 + 1)) := by
      funext k
      simp only [Function.comp_apply]
      omega
    rw [scanForward, if_neg (by omega), check_of (by omega), Panic.ok_bind,
      dif_neg (by omega), checkedByte_of_lt hnext, Panic.ok_bind, drop_text p hnext]
    by_cases ho : p.bytes[pos + 1] = openByte
    · rw [if_pos ho, check_of (by omega), Panic.ok_bind, ih hnext (by omega) (by omega), ho,
        partner?_cons_deeper, Option.map_map, hrest]
    rw [if_neg ho]
    by_cases hc : p.bytes[pos + 1] = closeByte
    · rw [if_pos hc, check_of (by omega), Panic.ok_bind, hc]
      cases depth with
      | zero =>
        -- the partner: the loop ends in its next round
        rw [partner?_cons_back_zero openByte_ne_closeByte, scanForward, if_pos rfl,
          check_of (by omega)]
        simp [landing, pure, Except.pure]
      | succ depth =>
        rw [Nat.add_sub_cancel, ih hnext (by omega) (by omega),
          partner?_cons_back_succ openByte_ne_closeByte, Option.map_map, hrest]
    · rw [if_neg hc, ih hnext (by omega) (by omega), partner?_cons_plain ho hc, Option.map_map,
        hrest]

/-- **The scan to the left passes all its checks.** A round that adds to the depth takes one from
the position. -/
theorem scanBackward_eq (hp : p.bytes.size ≤ top) (hdepth : depth + 1 + pos ≤ p.bytes.size) :
    p.scanBackward top pos (depth + 1) = .ok (landing .closing
      ((partner? closeByte openByte depth (p.text.take pos).reverse).map (pos - 1 - ·))) := by
  induction pos generalizing depth with
  | zero =>
    rw [scanBackward, if_neg (by omega), dif_pos rfl]
    rfl
  | succ pos ih =>
    have hlt : pos < p.bytes.size := by omega
    have hrest : (pos - ·) ∘ (· + 1) = (pos - 1 - ·) := by
      funext k
      simp only [Function.comp_apply]
      omega
    rw [scanBackward, if_neg (by omega), dif_neg (by omega), check_of (by omega), Panic.ok_bind,
      Nat.add_sub_cancel, checkedByte_of_lt hlt, Panic.ok_bind, take_text_succ p hlt,
      List.reverse_append, List.reverse_singleton, List.singleton_append]
    by_cases hc : p.bytes[pos] = closeByte
    · rw [if_pos hc, check_of (by omega), Panic.ok_bind, ih (by omega), hc, partner?_cons_deeper,
        Option.map_map, hrest]
    rw [if_neg hc]
    by_cases ho : p.bytes[pos] = openByte
    · rw [if_pos ho, check_of (by omega), Panic.ok_bind, ho]
      cases depth with
      | zero =>
        rw [partner?_cons_back_zero openByte_ne_closeByte.symm, scanBackward, if_pos rfl,
          check_of (by omega)]
        simp [landing, pure, Except.pure]
      | succ depth =>
        rw [Nat.add_sub_cancel, ih (by omega),
          partner?_cons_back_succ openByte_ne_closeByte.symm, Option.map_map, hrest]
    · rw [if_neg ho, ih (by omega), partner?_cons_plain hc ho, Option.map_map, hrest]

theorem checkedSeekForward_eq (hp : p.bytes.size ≤ top) (h : p.byteAt? pos = some openByte) :
    p.checkedSeekForward top (pos + 1) = .ok (landing .opening (p.closerAfter? pos)) := by
  have hlt : pos < p.bytes.size := (Array.getElem?_eq_some_iff.1 h).1
  have hbyte : p.checkedByte pos = .ok openByte := by rw [checkedByte, h]
  rw [checkedSeekForward, check_of (by omega), Panic.ok_bind, Nat.add_sub_cancel, hbyte,
    Panic.ok_bind, check_of rfl, Panic.ok_bind, check_of (by omega), Panic.ok_bind,
    scanForward_eq hp hlt (by omega), closerAfter?_eq_partner?]

theorem checkedSeekBackward_eq (hp : p.bytes.size ≤ top) (h : p.byteAt? pos = some closeByte) :
    p.checkedSeekBackward top (pos + 1) = .ok (landing .closing (p.openerBefore? pos)) := by
  have hlt : pos < p.bytes.size := (Array.getElem?_eq_some_iff.1 h).1
  have hbyte : p.checkedByte pos = .ok closeByte := by rw [checkedByte, h]
  rw [checkedSeekBackward, check_of (by omega), Panic.ok_bind, Nat.add_sub_cancel, hbyte,
    Panic.ok_bind, check_of rfl, Panic.ok_bind, check_of (by omega), Panic.ok_bind,
    scanBackward_eq hp (by omega), openerBefore?_eq_partner? p (by omega)]

end Program

/-- Cells and a cursor, which need not have a cell under it. -/
structure RawTape where
  cells : Array UInt8
  cursor : Nat
  deriving DecidableEq

namespace RawTape

/-- The current cell. -/
def read (t : RawTape) : Except Panic UInt8 :=
  match t.cells[t.cursor]? with
  | some b => .ok b
  | none => .error .cellIndex

/-- Replaces the current cell. -/
def write (t : RawTape) (b : UInt8) : Except Panic RawTape := do
  check (t.cursor < t.cells.size) .cellIndex
  return { t with cells := t.cells.setIfInBounds t.cursor b }

/-- Replaces the current cell by a function of it. -/
def modify (t : RawTape) (f : UInt8 → UInt8) : Except Panic RawTape := do
  let b ← t.read
  t.write (f b)

/-- Moves the cursor to the right, unless it is on the last cell. -/
def advance (top : Nat) (t : RawTape) : Except Panic (Except EdgeError RawTape) := do
  check (t.cursor + 1 ≤ top) .overflow
  if t.cells.size ≤ t.cursor + 1 then return .error ⟨t.cursor, t.cells.size⟩
  else return .ok { t with cursor := t.cursor + 1 }

/-- Moves the cursor to the left, unless it is on the first cell. -/
def retreat (t : RawTape) : Except Panic (Except EdgeError RawTape) :=
  if t.cursor = 0 then return .error ⟨t.cursor, t.cells.size⟩
  else do
    check (1 ≤ t.cursor) .overflow
    return .ok { t with cursor := t.cursor - 1 }

end RawTape

/-- A machine of whose state nothing is promised. -/
structure RawMachine where
  program : Program
  tape : RawTape
  ip : Nat
  console : Console
  heeds : Bool
  deriving DecidableEq

namespace RawMachine

/-- Writes the current cell. -/
def outputCell (m : RawMachine) (start : Nat) :
    Except Panic (Except RunError Unit × RawMachine) := do
  let b ← m.tape.read
  match m.console.put b with
  | (.ok _, console) => return (.ok (), { m with console })
  | (.error e, console) => return (.error (.output start e), { m with console })

/-- Reads a byte into the current cell. -/
def inputCell (m : RawMachine) (start : Nat) :
    Except Panic (Except RunError Unit × RawMachine) :=
  match m.console.flush with
  | (.error e, console) => return (.error (.output start e), { m with console })
  | (.ok _, console) =>
    if m.heeds && console.flag.cancelled then return (.ok (), { m with console })
    else
      match Machine.awaitRead console m.heeds with
      | (.byte b, console) => do
        let tape ← m.tape.write b
        return (.ok (), { m with tape, console })
      | (_, console) => return (.ok (), { m with console })

/-- Goes on where a seek has found a bracket. -/
def jump (m : RawMachine) (start : Nat) (found : Except Side Nat) :
    Except RunError Unit × RawMachine :=
  match found with
  | .ok ip => (.ok (), { m with ip })
  | .error side => (.error (.unmatchedBracket start side), m)

/-- Goes on with the tape after a move. -/
def move (m : RawMachine) (start : Nat) (op : Opcode) (moved : Except EdgeError RawTape) :
    Except RunError Unit × RawMachine :=
  match moved with
  | .ok tape => (.ok (), { m with tape })
  | .error e => (.error (.outOfBounds start e.cursor op), m)

/-- Carries out the instruction that was fetched at `start`, with the index past it. -/
def execute (top : Nat) (m : RawMachine) (start : Nat) (op : Opcode) :
    Except Panic (Except RunError Unit × RawMachine) :=
  match op with
  | .moveRight => return m.move start op (← m.tape.advance top)
  | .moveLeft => return m.move start op (← m.tape.retreat)
  | .increment => return (.ok (), { m with tape := ← m.tape.modify (· + 1) })
  | .decrement => return (.ok (), { m with tape := ← m.tape.modify (· - 1) })
  | .output => m.outputCell start
  | .input => m.inputCell start
  | .openLoop => do
    if (← m.tape.read) = 0 then return m.jump start (← m.program.checkedSeekForward top m.ip)
    else return (.ok (), m)
  | .closeLoop => do
    if (← m.tape.read) = 0 then return (.ok (), m)
    else return m.jump start (← m.program.checkedSeekBackward top m.ip)
  | .noOp => return (.ok (), m)

/-- One step. -/
def step (top : Nat) (m : RawMachine) : Except Panic (Except RunError Step × RawMachine) :=
  if m.heeds && m.console.flag.cancelled then return (.error .interrupted, m)
  else if m.program.bytes.size ≤ m.ip then return (.ok .halted, m)
  else do
    let b ← m.program.checkedByte m.ip
    check (m.ip + 1 ≤ top) .overflow
    let (result, after) ← { m with ip := m.ip + 1 }.execute top m.ip (.ofByte b)
    return (result.map fun _ => .next, after)

/-- Steps until one halts or fails, at most `fuel` of them; none if that is not enough. -/
def steps (top fuel : Nat) (m : RawMachine) :
    Except Panic (Option (Except RunError Unit × RawMachine)) :=
  match fuel with
  | 0 => return none
  | fuel + 1 => do
    match ← m.step top with
    | (.ok .next, after) => steps top fuel after
    | (.ok .halted, after) => return some (.ok (), after)
    | (.error e, after) => return some (.error e, after)

/-- Ends a run: flushes the output, whatever the result. -/
def finish (result : Except RunError Unit) (m : RawMachine) : Except RunError Unit × RawMachine :=
  match m.console.flush with
  | (.ok _, console) => (result, { m with console })
  | (.error e, console) => (result.bind fun _ => .error (.output m.ip e), { m with console })

/-- A run, if `fuel` steps are enough for it. -/
def run (top fuel : Nat) (m : RawMachine) :
    Except Panic (Option (Except RunError Unit × RawMachine)) := do
  let ended ← m.steps top fuel
  return ended.map fun (result, after) => after.finish result

/-- Takes an action; none if it is a run that `fuel` steps do not finish. -/
def perform (top fuel : Nat) (m : RawMachine) (action : Machine.Action) :
    Except Panic (Option (Machine.Answer × RawMachine)) :=
  match action with
  | .step => do
    let (result, after) ← m.step top
    return some (.stepped result, after)
  | .run => do
    let ended ← m.run top fuel
    return ended.map fun (result, after) => (.ran result, after)
  | .cancel => return some (.cancelled, { m with console := m.console.cancel })

/-- Takes the actions in order; none if one is a run that `fuel` steps do not finish. -/
def performAll (top fuel : Nat) (m : RawMachine) :
    List Machine.Action → Except Panic (Option (List Machine.Answer × RawMachine))
  | [] => return some ([], m)
  | action :: rest => do
    match ← m.perform top fuel action with
    | none => return none
    | some (answer, after) =>
      let ended ← after.performAll top fuel rest
      return ended.map fun (answers, last) => (answer :: answers, last)

end RawMachine

end Brainfuck
