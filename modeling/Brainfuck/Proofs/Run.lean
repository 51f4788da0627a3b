import Mathlib
import Brainfuck.Machine

/-!
# Steps and runs

What a step does, said once, and how steps make up a run. The number of steps that a run is
granted only has to be large enough, so runs are also told by what they return.

* `Tape.advance_eq_error_iff`, `Tape.retreat_eq_error_iff`: where a move is refused.
* `Machine.step_cases`, `Machine.execute_cases`, `Machine.finish_cases`: what a step, an
  instruction and the end of a run can do.
* `Machine.execute_changes`, `Machine.step_changes`: the program and the heed of the flag stay as
  they are.
* `Machine.ip_execute_cases`: what an instruction does to the index.
* `Machine.ip_of_execute_error`, `Machine.step_error_cases`: an instruction that fails reports where
  it stands, and so does a step.
* `Machine.execute_withConsole`: only `.` and `,` touch the console.
* `Machine.execute_mapTape`: only a move sees more of the tape than its current cell.
* `Machine.execute_relocate`, `Machine.execute_relocate_of_partner`: only brackets look at the text
  around them, and only for their partner.
* `Machine.steps_mono`, `Machine.Returns.unique`: more steps than needed change nothing.
* `Machine.LeadsTo`: the steps of one machine go on as those of another.
* `Machine.after`: the machine after a number of steps, whatever they answered.
* `Machine.steps_add`, `Machine.exists_last_step`: the steps of a run are those, up to the last.
* `Machine.step_mapError`, `Machine.after_map`, `Machine.steps_mapError`, `Machine.run_mapError`: a
  map that instructions commute with, steps commute with, and so do runs.
-/

namespace Brainfuck

namespace Opcode

theorem ofByte_ne_openLoop {b : UInt8} (h : b ≠ openByte) : ofByte b ≠ .openLoop := by
  grind [ofByte]

theorem ofByte_ne_closeLoop {b : UInt8} (h : b ≠ closeByte) : ofByte b ≠ .closeLoop := by
  grind [ofByte]

theorem eq_openByte {b : UInt8} (h : ofByte b = .openLoop) : b = openByte := by
  by_contra hne
  exact ofByte_ne_openLoop hne h

theorem eq_closeByte {b : UInt8} (h : ofByte b = .closeLoop) : b = closeByte := by
  by_contra hne
  exact ofByte_ne_closeLoop hne h

end Opcode

/-- The error with its index moved. -/
def RunError.mapIp (f : Nat → Nat) : RunError → RunError
  | .outOfBounds ip cursor op => .outOfBounds (f ip) cursor op
  | .unmatchedBracket ip side => .unmatchedBracket (f ip) side
  | .output ip cause => .output (f ip) cause
  | .interrupted => .interrupted

theorem RunError.mapIp_id (e : RunError) : e.mapIp id = e := by
  cases e <;> rfl

theorem mapError_eq_self {α : Type} {g : RunError → RunError} (h : ∀ e, g e = e)
    (result : Except RunError α) : result.mapError g = result := by
  cases result with
  | ok => rfl
  | error e => exact congrArg Except.error (h e)

theorem mapError_id {α : Type} (result : Except RunError α) : result.mapError id = result :=
  mapError_eq_self (fun _ => rfl) result

namespace Tape

variable {t t' : Tape}

theorem capacity_advance (h : t.advance = .ok t') : t'.capacity = t.capacity := by
  rw [capacity, cells_of_advance h, capacity]

theorem capacity_retreat (h : t.retreat = .ok t') : t'.capacity = t.capacity := by
  rw [capacity, cells_of_retreat h, capacity]

/-- **A move to the right** is refused on the last cell. -/
theorem advance_eq_error_iff {e : EdgeError} :
    t.advance = .error e ↔ t.cursor + 1 = t.capacity ∧ e = t.edge := by
  have hlt := t.cursor_lt
  unfold advance capacity
  split
  · simp only [reduceCtorEq, false_iff]
    omega
  · rw [Except.error.injEq, eq_comm]
    exact (and_iff_right (by omega)).symm

/-- **A move to the left** is refused on the first cell. -/
theorem retreat_eq_error_iff {e : EdgeError} :
    t.retreat = .error e ↔ t.cursor = 0 ∧ e = t.edge := by
  unfold retreat
  split
  · rename_i hz
    rw [Except.error.injEq, eq_comm]
    exact (and_iff_right hz).symm
  · rename_i hz
    simp only [reduceCtorEq, false_iff]
    exact fun h => hz h.1

end Tape

namespace Machine

/-- The machine with another console. -/
def withConsole (m : Machine) (c : Console) : Machine := { m with console := c }

@[simp] theorem withConsole_console (m : Machine) : m.withConsole m.console = m := rfl

@[simp] theorem console_withConsole (m : Machine) (c : Console) : (m.withConsole c).console = c :=
  rfl

variable {m last : Machine} {op : Opcode}

/-- **Only `.` and `,` touch the console**: every other instruction does the same beside any
console, and leaves it alone. -/
theorem execute_withConsole (ho : op ≠ .output) (hi : op ≠ .input) (m : Machine) (c : Console) :
    (m.withConsole c).execute op = ((m.execute op).1, (m.execute op).2.withConsole c) := by
  cases op with
  | output => exact absurd rfl ho
  | input => exact absurd rfl hi
  | moveRight => cases h : m.tape.advance <;> simp [execute, withConsole, h]
  | moveLeft => cases h : m.tape.retreat <;> simp [execute, withConsole, h]
  | increment => rfl
  | decrement => rfl
  | openLoop =>
    by_cases hz : m.tape.read = 0
    · cases h : m.program.closerAfter? m.ip <;> simp [execute, withConsole, hz, h]
    · simp [execute, withConsole, hz]
  | closeLoop =>
    by_cases hz : m.tape.read = 0
    · simp [execute, withConsole, hz]
    · cases h : m.program.openerBefore? m.ip <;> simp [execute, withConsole, hz, h]
  | noOp => rfl

/-- The machine with its index past the instruction. -/
def next (m : Machine) : Machine := { m with ip := m.ip + 1 }

/-- **What an instruction that is no `.` and no `,` can do**: move the index and change the tape,
or fail at an edge of the tape or for want of a bracket. -/
theorem execute_cases (ho : op ≠ .output) (hi : op ≠ .input) (m : Machine) :
    (∃ ip tape, m.execute op = (.ok (), { m with ip, tape })) ∨
    (∃ cursor, m.execute op = (.error (.outOfBounds m.ip cursor op), m.next)) ∨
    (∃ side, m.execute op = (.error (.unmatchedBracket m.ip side), m.next)) := by
  cases op with
  | output => exact absurd rfl ho
  | input => exact absurd rfl hi
  | moveRight =>
    cases h : m.tape.advance with
    | ok tape => exact .inl ⟨m.ip + 1, tape, by simp [execute, h]⟩
    | error edge => exact .inr (.inl ⟨edge.cursor, by simp [execute, h, next]⟩)
  | moveLeft =>
    cases h : m.tape.retreat with
    | ok tape => exact .inl ⟨m.ip + 1, tape, by simp [execute, h]⟩
    | error edge => exact .inr (.inl ⟨edge.cursor, by simp [execute, h, next]⟩)
  | increment => exact .inl ⟨m.ip + 1, m.tape.increment, rfl⟩
  | decrement => exact .inl ⟨m.ip + 1, m.tape.decrement, rfl⟩
  | openLoop =>
    by_cases hz : m.tape.read = 0
    · cases h : m.program.closerAfter? m.ip with
      | some j => exact .inl ⟨j + 1, m.tape, by simp [execute, hz, h]⟩
      | none => exact .inr (.inr ⟨.opening, by simp [execute, hz, h, next]⟩)
    · exact .inl ⟨m.ip + 1, m.tape, by simp [execute, hz]⟩
  | closeLoop =>
    by_cases hz : m.tape.read = 0
    · exact .inl ⟨m.ip + 1, m.tape, by simp [execute, hz]⟩
    · cases h : m.program.openerBefore? m.ip with
      | some j => exact .inl ⟨j + 1, m.tape, by simp [execute, hz, h]⟩
      | none => exact .inr (.inr ⟨.closing, by simp [execute, hz, h, next]⟩)
  | noOp => exact .inl ⟨m.ip + 1, m.tape, rfl⟩

theorem console_execute (ho : op ≠ .output) (hi : op ≠ .input) (m : Machine) :
    (m.execute op).2.console = m.console := by
  rcases execute_cases ho hi m with ⟨_, _, h⟩ | ⟨_, h⟩ | ⟨_, h⟩ <;> rw [h] <;> rfl

/-- What a read leaves on the tape: only a byte is stored. -/
def received (t : Tape) : ReadResult → Tape
  | .byte b => t.write b
  | .endOfInput | .failed _ => t

/-- What an output instruction does. -/
theorem outputCell_eq (m : Machine) :
    m.outputCell =
      ((m.console.put m.tape.read).1.mapError (.output m.ip),
        m.next.withConsole (m.console.put m.tape.read).2) := by
  unfold outputCell
  rcases m.console.put m.tape.read with ⟨_ | _, c⟩ <;> rfl

section input

variable {c d : Console}

theorem inputCell_of_error {e : IoError} (hf : m.console.flush = (.error e, c)) :
    m.inputCell = (.error (.output m.ip e), m.next.withConsole c) := by
  simp [inputCell, hf, next, withConsole]

theorem inputCell_of_cancelled (hf : m.console.flush = (.ok (), c))
    (hq : (m.heeds && c.flag.cancelled) = true) :
    m.inputCell = (.ok (), m.next.withConsole c) := by
  simp [inputCell, hf, hq, next, withConsole]

theorem inputCell_of_read {answer : ReadResult} (hf : m.console.flush = (.ok (), c))
    (hq : (m.heeds && c.flag.cancelled) = false) (hr : awaitRead c m.heeds = (answer, d)) :
    m.inputCell = (.ok (), { m.next.withConsole d with tape := received m.tape answer }) := by
  cases answer <;> simp [inputCell, hf, hq, hr, next, withConsole, received]

end input

/-- What an input instruction does: it fails in its flush, or it is cancelled after it, or it
reads. -/
theorem inputCell_cases (m : Machine) :
    (∃ e c, m.console.flush = (.error e, c) ∧
      m.inputCell = (.error (.output m.ip e), m.next.withConsole c)) ∨
    (∃ c, m.console.flush = (.ok (), c) ∧ (m.heeds && c.flag.cancelled) = true ∧
      m.inputCell = (.ok (), m.next.withConsole c)) ∨
    (∃ c answer d, m.console.flush = (.ok (), c) ∧ (m.heeds && c.flag.cancelled) = false ∧
      awaitRead c m.heeds = (answer, d) ∧
      m.inputCell =
        (.ok (), { m.next.withConsole d with tape := received m.tape answer })) := by
  rcases hf : m.console.flush with ⟨e | _, c⟩
  · exact .inl ⟨e, c, rfl, inputCell_of_error hf⟩
  · right
    cases hq : m.heeds && c.flag.cancelled with
    | true => exact .inl ⟨c, rfl, hq, inputCell_of_cancelled hf hq⟩
    | false =>
      rcases hr : awaitRead c m.heeds with ⟨answer, d⟩
      exact .inr ⟨c, answer, d, rfl, hq, hr, inputCell_of_read hf hq hr⟩

/-- An instruction changes nothing but the index, the tape and the console. -/
theorem execute_changes (op : Opcode) (m : Machine) :
    ∃ ip tape console, (m.execute op).2 = { m with ip, tape, console } := by
  by_cases ho : op = .output
  · subst ho
    rw [execute, outputCell_eq]
    exact ⟨_, _, _, rfl⟩
  by_cases hi : op = .input
  · subst hi
    rw [execute]
    rcases inputCell_cases m with ⟨_, _, _, h⟩ | ⟨_, _, _, h⟩ | ⟨_, _, _, _, _, _, h⟩ <;>
      rw [h] <;> exact ⟨_, _, _, rfl⟩
  · rcases execute_cases ho hi m with ⟨_, _, h⟩ | ⟨_, h⟩ | ⟨_, h⟩ <;>
      rw [h] <;> exact ⟨_, _, _, rfl⟩

/-- **An instruction that fails** reports where it stands. -/
theorem ip_of_execute_error {e : RunError} (h : (m.execute op).1 = .error e) :
    e.ip? = some m.ip := by
  by_cases ho : op = .output
  · subst ho
    rw [execute, outputCell_eq] at h
    cases hput : (m.console.put m.tape.read).1 <;> rw [hput] at h <;> cases h
    rfl
  by_cases hi : op = .input
  · subst hi
    rw [execute] at h
    rcases inputCell_cases m with ⟨_, _, -, heq⟩ | ⟨_, -, -, heq⟩ | ⟨_, _, _, -, -, -, heq⟩ <;>
      rw [heq] at h <;> cases h
    rfl
  · rcases execute_cases ho hi m with ⟨_, _, heq⟩ | ⟨_, heq⟩ | ⟨_, heq⟩ <;>
      rw [heq] at h <;> cases h <;> rfl

/-- **What an instruction does to the index**: it moves on by one, unless it is a bracket that has
to jump and finds its partner. -/
theorem ip_execute_cases (op : Opcode) (m : Machine) :
    ((m.execute op).2.ip = m.ip + 1 ∧
      (op = .openLoop → m.tape.read = 0 → m.program.closerAfter? m.ip = none) ∧
      (op = .closeLoop → m.tape.read ≠ 0 → m.program.openerBefore? m.ip = none)) ∨
    (∃ j, op = .openLoop ∧ m.tape.read = 0 ∧ m.program.closerAfter? m.ip = some j ∧
      m.execute op = (.ok (), { m with ip := j + 1 })) ∨
    (∃ i, op = .closeLoop ∧ m.tape.read ≠ 0 ∧ m.program.openerBefore? m.ip = some i ∧
      m.execute op = (.ok (), { m with ip := i + 1 })) := by
  cases op with
  | moveRight =>
    left
    cases h : m.tape.advance <;> simp [execute, h]
  | moveLeft =>
    left
    cases h : m.tape.retreat <;> simp [execute, h]
  | increment => exact .inl ⟨rfl, nofun, nofun⟩
  | decrement => exact .inl ⟨rfl, nofun, nofun⟩
  | output =>
    left
    rw [execute, outputCell_eq]
    exact ⟨rfl, nofun, nofun⟩
  | input =>
    left
    rw [execute]
    rcases inputCell_cases m with ⟨_, _, _, h⟩ | ⟨_, _, _, h⟩ | ⟨_, _, _, _, _, _, h⟩ <;>
      rw [h] <;> exact ⟨rfl, nofun, nofun⟩
  | openLoop =>
    by_cases hz : m.tape.read = 0
    · cases h : m.program.closerAfter? m.ip with
      | some j => exact .inr (.inl ⟨j, rfl, hz, rfl, by simp [execute, hz, h]⟩)
      | none => exact .inl (by simp [execute, hz, h])
    · exact .inl (by simp [execute, hz])
  | closeLoop =>
    by_cases hz : m.tape.read = 0
    · exact .inl (by simp [execute, hz])
    · cases h : m.program.openerBefore? m.ip with
      | some i => exact .inr (.inr ⟨i, rfl, hz, rfl, by simp [execute, hz, h]⟩)
      | none => exact .inl (by simp [execute, hz, h])
  | noOp => exact .inl ⟨rfl, nofun, nofun⟩

theorem program_execute (op : Opcode) (m : Machine) : (m.execute op).2.program = m.program := by
  obtain ⟨ip, tape, console, h⟩ := execute_changes op m
  rw [h]

/-- The machine with its tape changed. -/
def mapTape (f : Tape → Tape) (m : Machine) : Machine := { m with tape := f m.tape }

/-- **Only a move sees more of the tape than its current cell**: every other instruction does the
same on any tape that keeps this cell under its cursor. -/
theorem execute_mapTape {f : Tape → Tape} (hread : ∀ t, (f t).read = t.read)
    (hwrite : ∀ t b, (f t).write b = f (t.write b)) (hr : op ≠ .moveRight) (hl : op ≠ .moveLeft)
    (m : Machine) : (m.mapTape f).execute op = ((m.execute op).1, (m.execute op).2.mapTape f) := by
  cases op with
  | moveRight => exact absurd rfl hr
  | moveLeft => exact absurd rfl hl
  | increment => simp [execute, mapTape, Tape.increment, hread, hwrite]
  | decrement => simp [execute, mapTape, Tape.decrement, hread, hwrite]
  | output => simp [execute, outputCell_eq, mapTape, next, withConsole, hread]
  | input =>
    rcases inputCell_cases m with
      ⟨e, c, hf, heq⟩ | ⟨c, hf, hq, heq⟩ | ⟨c, answer, d, hf, hq, hd, heq⟩
    · simp only [execute, heq]
      exact inputCell_of_error hf
    · simp only [execute, heq]
      exact inputCell_of_cancelled hf hq
    · have hsame := inputCell_of_read (m := m.mapTape f) hf hq hd
      simp only [execute, heq, hsame]
      cases answer <;> simp [mapTape, next, withConsole, received, hwrite]
  | openLoop =>
    by_cases hz : m.tape.read = 0
    · cases hj : m.program.closerAfter? m.ip <;> simp [execute, mapTape, hread, hz, hj]
    · simp [execute, mapTape, hread, hz]
  | closeLoop =>
    by_cases hz : m.tape.read = 0
    · simp [execute, mapTape, hread, hz]
    · cases hj : m.program.openerBefore? m.ip <;> simp [execute, mapTape, hread, hz, hj]
  | noOp => rfl

/-- A bracket leaves the tape alone, whether it jumps, moves on or fails. -/
theorem tape_execute_of_bracket {op : Opcode} (h : op = .openLoop ∨ op = .closeLoop) :
    (m.execute op).2.tape = m.tape := by
  rcases h with rfl | rfl
  · by_cases hz : m.tape.read = 0
    · cases hj : m.program.closerAfter? m.ip <;> simp [execute, hz, hj]
    · simp [execute, hz]
  · by_cases hz : m.tape.read = 0
    · simp [execute, hz]
    · cases hj : m.program.openerBefore? m.ip <;> simp [execute, hz, hj]

theorem capacity_execute (op : Opcode) (m : Machine) :
    (m.execute op).2.tape.capacity = m.tape.capacity := by
  cases op with
  | moveRight =>
    cases h : m.tape.advance with
    | ok tape => simpa [execute, h] using Tape.capacity_advance h
    | error edge => simp [execute, h]
  | moveLeft =>
    cases h : m.tape.retreat with
    | ok tape => simpa [execute, h] using Tape.capacity_retreat h
    | error edge => simp [execute, h]
  | increment => exact Tape.capacity_write _ _
  | decrement => exact Tape.capacity_write _ _
  | output =>
    rw [execute, outputCell_eq]
    rfl
  | input =>
    rw [execute]
    rcases inputCell_cases m with ⟨_, _, _, h⟩ | ⟨_, _, _, h⟩ | ⟨_, answer, _, _, _, _, h⟩
    · rw [h]
      rfl
    · rw [h]
      rfl
    · rw [h]
      cases answer with
      | byte b => exact Tape.capacity_write _ _
      | endOfInput => rfl
      | failed e => rfl
  | openLoop => rw [tape_execute_of_bracket (.inl rfl)]
  | closeLoop => rw [tape_execute_of_bracket (.inr rfl)]
  | noOp => rfl

/-- The machine on another text, with its index moved. -/
def relocate (m : Machine) (q : Program) (f : Nat → Nat) : Machine :=
  { m with program := q, ip := f m.ip }

/-- **Only brackets look at the text around them**: every other instruction does the same
wherever it stands, and reports where it stands. -/
theorem execute_relocate (ho : op ≠ .openLoop) (hc : op ≠ .closeLoop) (m : Machine) (q : Program)
    {f : Nat → Nat} (hf : f (m.ip + 1) = f m.ip + 1) :
    (m.relocate q f).execute op =
      ((m.execute op).1.mapError (.mapIp f), (m.execute op).2.relocate q f) := by
  cases op with
  | openLoop => exact absurd rfl ho
  | closeLoop => exact absurd rfl hc
  | moveRight =>
    cases h : m.tape.advance <;>
      simp [execute, relocate, h, hf, Except.mapError, RunError.mapIp]
  | moveLeft =>
    cases h : m.tape.retreat <;>
      simp [execute, relocate, h, hf, Except.mapError, RunError.mapIp]
  | increment => simp [execute, relocate, hf, Except.mapError]
  | decrement => simp [execute, relocate, hf, Except.mapError]
  | output =>
    rcases h : m.console.put m.tape.read with ⟨_ | _, c⟩ <;>
      simp [execute, outputCell, relocate, h, hf, Except.mapError, RunError.mapIp]
  | input =>
    rcases h : m.console.flush with ⟨_ | _, c⟩
    · simp [execute, inputCell, relocate, h, hf, Except.mapError, RunError.mapIp]
    · cases hq : m.heeds && c.flag.cancelled
      · rcases hr : awaitRead c m.heeds with ⟨_ | _ | _, d⟩ <;>
          simp [execute, inputCell, relocate, h, hf, hq, hr, Except.mapError]
      · simp [execute, inputCell, relocate, h, hf, hq, Except.mapError]
  | noOp => simp [execute, relocate, hf, Except.mapError]

/-- **A bracket does the same on another text** if it finds the corresponding partner there, and if
what stands past this partner corresponds too. -/
theorem execute_relocate_of_partner (op : Opcode) (m : Machine) (q : Program) {f : Nat → Nat}
    (hf : f (m.ip + 1) = f m.ip + 1)
    (hcloser : op = .openLoop → q.closerAfter? (f m.ip) = (m.program.closerAfter? m.ip).map f)
    (hopener : op = .closeLoop → q.openerBefore? (f m.ip) = (m.program.openerBefore? m.ip).map f)
    (hpast : ∀ k, m.program.closerAfter? m.ip = some k ∨ m.program.openerBefore? m.ip = some k →
      f (k + 1) = f k + 1) :
    (m.relocate q f).execute op =
      ((m.execute op).1.mapError (.mapIp f), (m.execute op).2.relocate q f) := by
  by_cases ho : op = .openLoop
  · subst ho
    have hcloser := hcloser rfl
    by_cases hz : m.tape.read = 0
    · cases hk : m.program.closerAfter? m.ip with
      | none =>
        simp [execute, relocate, hz, hk, hcloser, hf, Except.mapError, RunError.mapIp]
      | some k => simp [execute, relocate, hz, hk, hcloser, hpast k (.inl hk), Except.mapError]
    · simp [execute, relocate, hz, hf, Except.mapError]
  by_cases hc : op = .closeLoop
  · subst hc
    have hopener := hopener rfl
    by_cases hz : m.tape.read = 0
    · simp [execute, relocate, hz, hf, Except.mapError]
    · cases hk : m.program.openerBefore? m.ip with
      | none =>
        simp [execute, relocate, hz, hk, hopener, hf, Except.mapError, RunError.mapIp]
      | some k => simp [execute, relocate, hz, hk, hopener, hpast k (.inr hk), Except.mapError]
  · exact execute_relocate ho hc m q hf

theorem flush_relocate (m : Machine) (q : Program) (f : Nat → Nat) :
    (m.relocate q f).flush = (m.flush.1.mapError (.mapIp f), m.flush.2.relocate q f) := by
  rcases h : m.console.flush with ⟨_ | _, c⟩ <;>
    simp [flush, relocate, h, Except.mapError, RunError.mapIp]

/-- What the flush of a machine does, the end of a run does. -/
theorem finish_map {f : Machine → Machine} {g : RunError → RunError}
    (hflush : (f m).flush = (m.flush.1.mapError g, f m.flush.2)) (result : Except RunError Unit) :
    (f m).finish (result.mapError g) =
      ((m.finish result).1.mapError g, f (m.finish result).2) := by
  cases result <;> simp [finish, hflush, Except.mapError]

theorem finish_relocate (result : Except RunError Unit) (m : Machine) (q : Program)
    (f : Nat → Nat) :
    (m.relocate q f).finish (result.mapError (.mapIp f)) =
      ((m.finish result).1.mapError (.mapIp f), (m.finish result).2.relocate q f) :=
  finish_map (f := (relocate · q f)) (flush_relocate m q f) result

/-- **What the end of a run can do**: its flush succeeds and the result stands, or the flush
fails, which is the result unless there was an error before. -/
theorem finish_cases (result : Except RunError Unit) (m : Machine) :
    (∃ c, m.console.flush = (.ok (), c) ∧ m.finish result = (result, m.withConsole c)) ∨
    (∃ e c, m.console.flush = (.error e, c) ∧
      m.finish result = (result.bind fun _ => .error (.output m.ip e), m.withConsole c)) := by
  rcases h : m.console.flush with ⟨e | _, c⟩
  · right
    refine ⟨e, c, rfl, ?_⟩
    cases result <;> simp [finish, flush, h, withConsole, Except.bind]
  · left
    refine ⟨c, rfl, ?_⟩
    cases result <;> simp [finish, flush, h, withConsole]

theorem program_finish (result : Except RunError Unit) (m : Machine) :
    (m.finish result).2.program = m.program := by
  rcases finish_cases result m with ⟨_, -, h⟩ | ⟨_, _, -, h⟩ <;> rw [h] <;> rfl

/-- A flush changes nothing but the console. -/
theorem flush_eq_withConsole (m : Machine) : ∃ c, m.flush.2 = m.withConsole c := by
  unfold flush
  rcases m.console.flush with ⟨_ | _, c⟩ <;> exact ⟨c, rfl⟩

/-- A step of a machine that has been asked to stop. -/
theorem step_of_cancelled (h : m.isCancelled = true) : m.step = (.error .interrupted, m) := by
  simp [step, h]

/-- A step at the end of the text. -/
theorem step_of_end (hc : m.isCancelled = false) (h : m.program.byteAt? m.ip = none) :
    m.step = (.ok .halted, m) := by
  have hle : m.program.bytes.size ≤ m.ip := (Program.byteAt?_eq_none_iff _ _).1 h
  rw [step, if_neg (by simp [hc]), dif_neg (Nat.not_lt.2 hle)]

/-- A step that has an instruction carries it out. -/
theorem step_of_byte (hc : m.isCancelled = false) {b : UInt8}
    (h : m.program.byteAt? m.ip = some b) :
    m.step = ((m.execute (.ofByte b)).1.map fun _ => Step.next, (m.execute (.ofByte b)).2) := by
  obtain ⟨hlt, hb⟩ := Array.getElem?_eq_some_iff.1 h
  rw [step, dif_pos hlt, if_neg (by simp [hc]), hb]
  rcases m.execute (.ofByte b) with ⟨_ | _, after⟩ <;> rfl

/-- **What a step can do**: nothing when it is cancelled or at the end of the text, and else
what its instruction does. -/
theorem step_cases (m : Machine) :
    (m.isCancelled = true ∧ m.step = (.error .interrupted, m)) ∨
    (m.isCancelled = false ∧ m.program.byteAt? m.ip = none ∧ m.step = (.ok .halted, m)) ∨
    (∃ b, m.isCancelled = false ∧ m.program.byteAt? m.ip = some b ∧
      m.step =
        ((m.execute (.ofByte b)).1.map fun _ => Step.next, (m.execute (.ofByte b)).2)) := by
  cases hc : m.isCancelled with
  | true => exact .inl ⟨rfl, step_of_cancelled hc⟩
  | false =>
    cases hb : m.program.byteAt? m.ip with
    | none => exact .inr (.inl ⟨rfl, rfl, step_of_end hc hb⟩)
    | some b => exact .inr (.inr ⟨b, rfl, rfl, step_of_byte hc hb⟩)

/-- **What a step can fail at**: at being refused, or at the instruction where the machine
stands. -/
theorem step_error_cases {e : RunError} (h : m.step.1 = .error e) :
    (m.isCancelled = true ∧ e = .interrupted ∧ m.step.2 = m) ∨
    (m.isCancelled = false ∧ e.ip? = some m.ip ∧ ∃ b, m.program.byteAt? m.ip = some b ∧
      (m.execute (.ofByte b)).1 = .error e ∧ m.step.2 = (m.execute (.ofByte b)).2) := by
  rcases step_cases m with ⟨hc, hs⟩ | ⟨-, -, hs⟩ | ⟨b, hc, hb, hs⟩ <;> rw [hs] at h ⊢
  · cases h
    exact .inl ⟨hc, rfl, rfl⟩
  · cases h
  · cases he : (m.execute (.ofByte b)).1 with
    | ok _ =>
      rw [he] at h
      cases h
    | error cause =>
      rw [he] at h
      cases h
      exact .inr ⟨hc, ip_of_execute_error he, b, hb, he, rfl⟩

/-- A step changes nothing but the index, the tape and the console. -/
theorem step_changes (m : Machine) :
    ∃ ip tape console, m.step.2 = { m with ip, tape, console } := by
  rcases step_cases m with ⟨-, h⟩ | ⟨-, -, h⟩ | ⟨b, -, -, h⟩ <;> rw [h]
  · exact ⟨_, _, _, rfl⟩
  · exact ⟨_, _, _, rfl⟩
  · exact execute_changes _ m

theorem program_step (m : Machine) : m.step.2.program = m.program := by
  obtain ⟨ip, tape, console, h⟩ := step_changes m
  rw [h]

theorem heeds_step (m : Machine) : m.step.2.heeds = m.heeds := by
  obtain ⟨ip, tape, console, h⟩ := step_changes m
  rw [h]

theorem capacity_step (m : Machine) : m.step.2.tape.capacity = m.tape.capacity := by
  rcases step_cases m with ⟨-, h⟩ | ⟨-, -, h⟩ | ⟨b, -, -, h⟩
  · rw [h]
  · rw [h]
  · rw [h]
    exact capacity_execute _ m

theorem steps_of_next {after : Machine} (h : m.step = (.ok .next, after)) (fuel : Nat) :
    m.steps (fuel + 1) = after.steps fuel := by
  simp [steps, h]

theorem steps_of_halted {after : Machine} (h : m.step = (.ok .halted, after)) (fuel : Nat) :
    m.steps (fuel + 1) = some (.ok (), after) := by
  simp [steps, h]

theorem steps_of_error {after : Machine} {e : RunError} (h : m.step = (.error e, after))
    (fuel : Nat) : m.steps (fuel + 1) = some (.error e, after) := by
  simp [steps, h]

/-- More steps than needed change nothing. -/
theorem steps_mono {fuel fuel' : Nat} {r : Except RunError Unit × Machine}
    (h : m.steps fuel = some r) (hle : fuel ≤ fuel') : m.steps fuel' = some r := by
  induction fuel generalizing m fuel' with
  | zero => simp [steps] at h
  | succ fuel ih =>
    obtain ⟨k, rfl⟩ : ∃ k, fuel' = k + 1 := ⟨fuel' - 1, by omega⟩
    rcases hs : m.step with ⟨_ | (_ | _), after⟩
    · rw [steps_of_error hs] at h ⊢
      exact h
    · rw [steps_of_next hs] at h ⊢
      exact ih h (by omega)
    · rw [steps_of_halted hs] at h ⊢
      exact h

/-- The steps of the first machine go on as those of the second, after some steps that answer
nothing. -/
def LeadsTo (m m' : Machine) : Prop := ∃ k, ∀ fuel, m.steps (fuel + k) = m'.steps fuel

namespace LeadsTo

variable {m' m'' : Machine} {fuel : Nat} {r : Except RunError Unit × Machine}

theorem refl (m : Machine) : m.LeadsTo m := ⟨0, fun _ => rfl⟩

theorem trans (h : m.LeadsTo m') (h' : m'.LeadsTo m'') : m.LeadsTo m'' := by
  obtain ⟨k, hk⟩ := h
  obtain ⟨k', hk'⟩ := h'
  refine ⟨k' + k, ?_⟩
  intro fuel
  rw [← Nat.add_assoc, hk, hk']

theorem of_next (h : m.step = (.ok .next, m')) : m.LeadsTo m' := ⟨1, steps_of_next h⟩

/-- Two machines whose next step is the same go on alike. -/
theorem of_step_eq (h : m.step = m'.step) : m.LeadsTo m' := by
  refine ⟨0, ?_⟩
  intro fuel
  cases fuel with
  | zero => rfl
  | succ fuel => simp only [steps, h]

/-- Steps that are enough from the first machine are enough from the second. -/
theorem steps_to (h : m.LeadsTo m') (hs : m.steps fuel = some r) : m'.steps fuel = some r := by
  obtain ⟨k, hk⟩ := h
  rw [← hk]
  exact steps_mono hs (Nat.le_add_right fuel k)

theorem steps_of_steps (h : m.LeadsTo m') (hs : m'.steps fuel = some r) :
    ∃ fuel', m.steps fuel' = some r := by
  obtain ⟨k, hk⟩ := h
  exact ⟨fuel + k, (hk fuel).trans hs⟩

end LeadsTo

/-- **A run returns** a result and leaves a machine, if some number of steps is enough for it. -/
def Returns (m : Machine) (result : Except RunError Unit) (after : Machine) : Prop :=
  ∃ fuel, m.run fuel = some (result, after)

theorem run_eq_some_iff {fuel : Nat} {r : Except RunError Unit × Machine} :
    m.run fuel = some r ↔
      ∃ result last, m.steps fuel = some (result, last) ∧ last.finish result = r := by
  simp [run, Option.map_eq_some_iff]

theorem returns_iff {r : Except RunError Unit} {after : Machine} :
    m.Returns r after ↔ ∃ fuel result last,
      m.steps fuel = some (result, last) ∧ last.finish result = (r, after) := by
  simp only [Returns, run_eq_some_iff]

/-- A run returns one thing at most. -/
theorem Returns.unique {r r' : Except RunError Unit} {after after' : Machine}
    (h : m.Returns r after) (h' : m.Returns r' after') : r = r' ∧ after = after' := by
  obtain ⟨n, result, last, hs, hf⟩ := returns_iff.1 h
  obtain ⟨n', result', last', hs', hf'⟩ := returns_iff.1 h'
  have h1 := steps_mono hs (Nat.le_max_left n n')
  have h2 := steps_mono hs' (Nat.le_max_right n n')
  rw [h1] at h2
  cases h2
  rw [hf] at hf'
  cases hf'
  exact ⟨rfl, rfl⟩

theorem LeadsTo.returns_iff {m' after : Machine} {r : Except RunError Unit} (h : m.LeadsTo m') :
    m.Returns r after ↔ m'.Returns r after := by
  rw [Machine.returns_iff, Machine.returns_iff]
  constructor
  · rintro ⟨fuel, result, last, hs, hf⟩
    exact ⟨fuel, result, last, h.steps_to hs, hf⟩
  · rintro ⟨fuel, result, last, hs, hf⟩
    obtain ⟨fuel', hs'⟩ := h.steps_of_steps hs
    exact ⟨fuel', result, last, hs', hf⟩

/-- The machine after `n` steps, whatever they answered. -/
def after (n : Nat) (m : Machine) : Machine :=
  match n with
  | 0 => m
  | n + 1 => (m.after n).step.2

theorem after_succ_left (n : Nat) (m : Machine) : m.after (n + 1) = m.step.2.after n := by
  induction n with
  | zero => rfl
  | succ n ih => rw [after, ih, after]

theorem program_after (n : Nat) : (m.after n).program = m.program := by
  induction n with
  | zero => rfl
  | succ n ih => rw [after, program_step, ih]

theorem heeds_after (n : Nat) : (m.after n).heeds = m.heeds := by
  induction n with
  | zero => rfl
  | succ n ih => rw [after, heeds_step, ih]

theorem capacity_after (n : Nat) : (m.after n).tape.capacity = m.tape.capacity := by
  induction n with
  | zero => rfl
  | succ n ih => rw [after, capacity_step, ih]

theorem after_succ_of_next {after : Machine} (h : m.step = (.ok .next, after)) (n : Nat) :
    m.after (n + 1) = after.after n := by
  rw [after_succ_left, h]

/-- The first `k` steps complete. -/
def Proceeds (m : Machine) (k : Nat) : Prop := ∀ j < k, (m.after j).step.1 = .ok .next

theorem proceeds_zero (m : Machine) : m.Proceeds 0 := fun _ hj => absurd hj (Nat.not_lt_zero _)

theorem Proceeds.of_next {after : Machine} {k : Nat} (h : m.step = (.ok .next, after))
    (hafter : after.Proceeds k) : m.Proceeds (k + 1) := by
  intro j hj
  cases j with
  | zero => exact congrArg Prod.fst h
  | succ j =>
    rw [after_succ_of_next h]
    exact hafter j (by omega)

/-- Steps that complete only use up fuel. -/
theorem steps_add {k : Nat} (h : m.Proceeds k) (fuel : Nat) :
    m.steps (fuel + k) = (m.after k).steps fuel := by
  induction k generalizing fuel with
  | zero => rfl
  | succ k ih =>
    have hlast : (m.after k).step = (.ok .next, m.after (k + 1)) :=
      Prod.ext (h k (by omega)) rfl
    calc m.steps (fuel + (k + 1))
        = m.steps (fuel + 1 + k) := by rw [Nat.add_assoc, Nat.add_comm 1 k]
      _ = (m.after k).steps (fuel + 1) := ih (fun j hj => h j (by omega)) (fuel + 1)
      _ = (m.after (k + 1)).steps fuel := steps_of_next hlast fuel

theorem LeadsTo.of_proceeds {k : Nat} (h : m.Proceeds k) : m.LeadsTo (m.after k) :=
  ⟨k, steps_add h⟩

/-- **A sequence of steps ends** with one step, after steps that complete. -/
theorem exists_last_step {fuel : Nat} {r : Except RunError Unit × Machine}
    (h : m.steps fuel = some r) :
    ∃ k < fuel, m.Proceeds k ∧ (m.after k).steps 1 = some r := by
  induction fuel generalizing m with
  | zero => simp [steps] at h
  | succ fuel ih =>
    rcases hs : m.step with ⟨e | (_ | _), mid⟩
    · refine ⟨0, by omega, proceeds_zero m, ?_⟩
      rw [steps_of_error hs] at h
      exact (steps_of_error hs 0).trans h
    · rw [steps_of_next hs] at h
      obtain ⟨k, hk, hproceeds, hlast⟩ := ih h
      exact ⟨k + 1, by omega, .of_next hs hproceeds, by rw [after_succ_of_next hs, hlast]⟩
    · refine ⟨0, by omega, proceeds_zero m, ?_⟩
      rw [steps_of_halted hs] at h
      exact (steps_of_halted hs 0).trans h

/-- A last step that fails is where the error comes from. -/
theorem step_of_last_error {e : RunError} (h : m.steps 1 = some (.error e, last)) :
    m.step = (.error e, last) := by
  rcases hs : m.step with ⟨e' | (_ | _), mid⟩
  · rw [steps_of_error hs] at h
    cases h
    rfl
  · rw [steps_of_next hs] at h
    cases h
  · rw [steps_of_halted hs] at h
    cases h

/-- A last step that does not fail is none: the machine stands at the end of its text. -/
theorem eq_of_last_ok (h : m.steps 1 = some (.ok (), last)) :
    last = m ∧ m.program.byteAt? m.ip = none := by
  rcases step_cases m with ⟨-, hs⟩ | ⟨-, hb, hs⟩ | ⟨b, -, -, hs⟩
  · rw [steps_of_error hs] at h
    cases h
  · rw [steps_of_halted hs] at h
    cases h
    exact ⟨rfl, hb⟩
  · cases he : (m.execute (.ofByte b)).1 with
    | error e =>
      rw [he] at hs
      rw [steps_of_error hs] at h
      cases h
    | ok =>
      rw [he] at hs
      rw [steps_of_next hs] at h
      cases h

section map

variable {f : Machine → Machine} {g : RunError → RunError} {n fuel : Nat}

/-- **Two machines take the same step** if their next instructions do the same, errors being changed
along. -/
theorem step_mapError (hg : g .interrupted = .interrupted)
    (hcancel : (f m).isCancelled = m.isCancelled)
    (hend : m.program.byteAt? m.ip = none → (f m).program.byteAt? (f m).ip = none)
    (hexecute : ∀ b, m.isCancelled = false → m.program.byteAt? m.ip = some b →
      ∃ b', (f m).program.byteAt? (f m).ip = some b' ∧ (f m).execute (.ofByte b') =
        ((m.execute (.ofByte b)).1.mapError g, f (m.execute (.ofByte b)).2)) :
    (f m).step = (m.step.1.mapError g, f m.step.2) := by
  rcases step_cases m with ⟨hc, hs⟩ | ⟨hc, hb, hs⟩ | ⟨b, hc, hb, hs⟩
  · rw [hs, step_of_cancelled (hcancel.trans hc), Except.mapError, hg]
  · rw [hs, step_of_end (hcancel.trans hc) (hend hb)]
    rfl
  · obtain ⟨b', hb', hsame⟩ := hexecute b hc hb
    rw [hs, step_of_byte (hcancel.trans hc) hb', hsame]
    cases (m.execute (.ofByte b)).1 <;> rfl

theorem step_map (hcancel : (f m).isCancelled = m.isCancelled)
    (hend : m.program.byteAt? m.ip = none → (f m).program.byteAt? (f m).ip = none)
    (hexecute : ∀ b, m.isCancelled = false → m.program.byteAt? m.ip = some b →
      ∃ b', (f m).program.byteAt? (f m).ip = some b' ∧ (f m).execute (.ofByte b') =
        ((m.execute (.ofByte b)).1, f (m.execute (.ofByte b)).2)) :
    (f m).step = (m.step.1, f m.step.2) := by
  have hsame := step_mapError (f := f) (g := id) rfl hcancel hend
    (by simpa only [mapError_id] using hexecute)
  rwa [mapError_id] at hsame

/-- Two machines stay in step as long as each step leads on both to what it leads to on one. -/
theorem after_map (h : ∀ j < n, (f (m.after j)).step.2 = f (m.after j).step.2) :
    (f m).after n = f (m.after n) := by
  induction n with
  | zero => rfl
  | succ n ih =>
    have hlast := h n (by omega)
    rw [after, ih fun j hj => h j (by omega), hlast, after]

/-- So their steps end alike, or not at all, if their errors correspond. -/
theorem steps_mapError (h : ∀ j < fuel, m.Proceeds j →
      (f (m.after j)).step = ((m.after j).step.1.mapError g, f (m.after j).step.2)) :
    (f m).steps fuel = (m.steps fuel).map fun r => (r.1.mapError g, f r.2) := by
  induction fuel generalizing m with
  | zero => rfl
  | succ fuel ih =>
    have hfirst : (f m).step = (m.step.1.mapError g, f m.step.2) :=
      h 0 (by omega) (proceeds_zero m)
    rcases hs : m.step with ⟨e | (_ | _), mid⟩ <;> rw [hs] at hfirst
    · rw [steps_of_error hs, steps_of_error hfirst, Option.map_some]
      rfl
    · rw [steps_of_next hs, steps_of_next hfirst]
      refine ih ?_
      intro j hj hproceeds
      have hlater := h (j + 1) (by omega) (.of_next hs hproceeds)
      rwa [after_succ_of_next hs] at hlater
    · rw [steps_of_halted hs, steps_of_halted hfirst, Option.map_some]
      rfl

theorem steps_map (h : ∀ j < fuel, m.Proceeds j →
      (f (m.after j)).step = ((m.after j).step.1, f (m.after j).step.2)) :
    (f m).steps fuel = (m.steps fuel).map fun r => (r.1, f r.2) := by
  have hsame : (f m).steps fuel = (m.steps fuel).map fun r => (r.1.mapError id, f r.2) := by
    refine steps_mapError ?_
    intro j hj hproceeds
    rw [mapError_id]
    exact h j hj hproceeds
  simpa only [mapError_id] using hsame

/-- And so do their runs, if the end of a run commutes with the map too. -/
theorem run_mapError
    (hsteps : (f m).steps fuel = (m.steps fuel).map fun r => (r.1.mapError g, f r.2))
    (hfinish : ∀ result m, (f m).finish (result.mapError g) =
      ((m.finish result).1.mapError g, f (m.finish result).2)) :
    (f m).run fuel = (m.run fuel).map fun r => (r.1.mapError g, f r.2) := by
  rw [run, run, hsteps, Option.map_map, Option.map_map]
  congr 1
  funext ended
  exact hfinish ended.1 ended.2

end map

end Machine

end Brainfuck
