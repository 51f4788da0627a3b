import Brainfuck.Proofs.Checked
import Brainfuck.Proofs.Loops
import Brainfuck.Proofs.Session

/-!
# Reachable states are safe

The machine that checks every access, sum and assertion never panics, and does what the machine
does. It is enough that the lengths of the text and of the tape are numbers of the computer: each
index, cursor and depth stays below one of them.

* `Machine.execute_raw`, `Machine.step_raw`: an instruction and a step pass their checks.
* `Machine.performAll_raw`: so does any session.
* `Machine.invariant_inBounds`: the index and the cursor stay in bounds.
* `Machine.performAll_safe`: both for the states that a session comes to.
-/

namespace Brainfuck

namespace Tape

/-- The tape without the promise of a cell under its cursor. -/
def raw (t : Tape) : RawTape := ⟨t.cells, t.cursor⟩

variable {t : Tape} {top : Nat}

@[simp] theorem cells_raw (t : Tape) : t.raw.cells = t.cells := rfl

@[simp] theorem cursor_raw (t : Tape) : t.raw.cursor = t.cursor := rfl

theorem read_raw (t : Tape) : t.raw.read = .ok t.read := by
  have hcell : t.raw.cells[t.raw.cursor]? = some t.read := Array.getElem?_eq_getElem t.cursor_lt
  rw [RawTape.read, hcell]

theorem write_raw (t : Tape) (b : UInt8) : t.raw.write b = .ok (t.write b).raw := by
  have hlt : t.raw.cursor < t.raw.cells.size := t.cursor_lt
  rw [RawTape.write, check_of hlt, Panic.ok_bind]
  simp [raw, write, Array.setIfInBounds, t.cursor_lt, pure, Except.pure]

theorem modify_raw (t : Tape) (f : UInt8 → UInt8) :
    t.raw.modify f = .ok (t.write (f t.read)).raw := by
  rw [RawTape.modify, read_raw, Panic.ok_bind, write_raw]

theorem advance_raw (h : t.capacity ≤ top) : t.raw.advance top = .ok (t.advance.map raw) := by
  have hsum : t.raw.cursor + 1 ≤ top := Nat.le_trans t.cursor_lt h
  rw [RawTape.advance, check_of hsum, Panic.ok_bind, advance]
  by_cases hlt : t.cursor + 1 < t.cells.size
  · rw [if_neg (by simpa [raw] using hlt), dif_pos hlt]
    rfl
  · rw [if_pos (by simpa [raw] using hlt), dif_neg hlt]
    rfl

theorem retreat_raw (t : Tape) : t.raw.retreat = .ok (t.retreat.map raw) := by
  rw [RawTape.retreat, retreat, cursor_raw]
  by_cases hz : t.cursor = 0
  · rw [if_pos hz, if_pos hz]
    rfl
  · rw [if_neg hz, if_neg hz, check_of (Nat.one_le_iff_ne_zero.2 hz), Panic.ok_bind]
    rfl

end Tape

namespace Machine

/-- The machine without the promises about its state. -/
def raw (m : Machine) : RawMachine := ⟨m.program, m.tape.raw, m.ip, m.console, m.heeds⟩

/-- The lengths of the text and of the tape are numbers of the computer. -/
structure Fits (top : Nat) (m : Machine) : Prop where
  text : m.program.bytes.size ≤ top
  cells : m.tape.capacity ≤ top

variable {m last : Machine} {top fuel : Nat} {op : Opcode} {b : UInt8}

/-- **An instruction passes all its checks**, if it is the one that stands at the index. -/
theorem execute_raw (hm : m.Fits top) (hb : m.program.byteAt? m.ip = some b)
    (hop : Opcode.ofByte b = op) :
    m.next.raw.execute top m.ip op = .ok ((m.execute op).1, (m.execute op).2.raw) := by
  cases op with
  | moveRight =>
    have hmove : m.next.raw.tape.advance top = .ok (m.tape.advance.map Tape.raw) :=
      Tape.advance_raw hm.cells
    rw [RawMachine.execute, hmove]
    cases h : m.tape.advance <;> simp [execute, h] <;> rfl
  | moveLeft =>
    have hmove : m.next.raw.tape.retreat = .ok (m.tape.retreat.map Tape.raw) :=
      Tape.retreat_raw m.tape
    rw [RawMachine.execute, hmove]
    cases h : m.tape.retreat <;> simp [execute, h] <;> rfl
  | increment =>
    have hcell : m.next.raw.tape.modify (· + 1) = .ok m.tape.increment.raw :=
      Tape.modify_raw m.tape (· + 1)
    rw [RawMachine.execute, hcell]
    rfl
  | decrement =>
    have hcell : m.next.raw.tape.modify (· - 1) = .ok m.tape.decrement.raw :=
      Tape.modify_raw m.tape (· - 1)
    rw [RawMachine.execute, hcell]
    rfl
  | output =>
    have hcell : m.next.raw.tape.read = .ok m.tape.read := Tape.read_raw m.tape
    have hconsole : m.next.raw.console = m.console := rfl
    rw [RawMachine.execute, RawMachine.outputCell, hcell, Panic.ok_bind, hconsole, execute,
      outputCell_eq]
    rcases m.console.put m.tape.read with ⟨_ | _, c⟩ <;> rfl
  | input =>
    have hconsole : m.next.raw.console = m.console := rfl
    have hheeds : m.next.raw.heeds = m.heeds := rfl
    rw [RawMachine.execute, RawMachine.inputCell, hconsole, hheeds, execute]
    rcases inputCell_cases m with
      ⟨e, c, hf, heq⟩ | ⟨c, hf, hq, heq⟩ | ⟨c, answer, d, hf, hq, hr, heq⟩
    · rw [hf, heq]
      rfl
    · simp only [hf, hq, heq]
      rfl
    · have hcell : ∀ b, m.next.raw.tape.write b = .ok (m.tape.write b).raw := Tape.write_raw m.tape
      simp only [hf, hq, hr, heq]
      cases answer with
      | byte b =>
        simp only [hcell]
        rfl
      | endOfInput => rfl
      | failed e => rfl
  | openLoop =>
    have hopen : m.program.byteAt? m.ip = some openByte := by rw [hb, Opcode.eq_openByte hop]
    have hcell : m.next.raw.tape.read = .ok m.tape.read := Tape.read_raw m.tape
    have hseek : m.next.raw.program.checkedSeekForward top m.next.raw.ip =
        .ok (Program.landing .opening (m.program.closerAfter? m.ip)) :=
      Program.checkedSeekForward_eq hm.text hopen
    rw [RawMachine.execute, hcell, Panic.ok_bind, hseek, execute]
    by_cases hz : m.tape.read = 0
    · rw [if_pos hz, if_pos hz]
      cases m.program.closerAfter? m.ip <;> rfl
    · rw [if_neg hz, if_neg hz]
      rfl
  | closeLoop =>
    have hclose : m.program.byteAt? m.ip = some closeByte := by rw [hb, Opcode.eq_closeByte hop]
    have hcell : m.next.raw.tape.read = .ok m.tape.read := Tape.read_raw m.tape
    have hseek : m.next.raw.program.checkedSeekBackward top m.next.raw.ip =
        .ok (Program.landing .closing (m.program.openerBefore? m.ip)) :=
      Program.checkedSeekBackward_eq hm.text hclose
    rw [RawMachine.execute, hcell, Panic.ok_bind, hseek, execute]
    by_cases hz : m.tape.read = 0
    · rw [if_pos hz, if_pos hz]
      rfl
    · rw [if_neg hz, if_neg hz]
      cases m.program.openerBefore? m.ip <;> rfl
  | noOp => rfl

/-- **A step passes all its checks.** -/
theorem step_raw (hm : m.Fits top) : m.raw.step top = .ok (m.step.1, m.step.2.raw) := by
  have hcancel : (m.raw.heeds && m.raw.console.flag.cancelled) = m.isCancelled := rfl
  rw [RawMachine.step, hcancel]
  rcases step_cases m with ⟨hc, hs⟩ | ⟨hc, hb, hs⟩ | ⟨b, hc, hb, hs⟩
  · rw [if_pos hc, hs]
    rfl
  · have hend : m.raw.program.bytes.size ≤ m.raw.ip := (Program.byteAt?_eq_none_iff _ _).1 hb
    rw [if_neg (by simp [hc]), if_pos hend, hs]
    rfl
  · have hlt : m.raw.ip < m.raw.program.bytes.size := (Array.getElem?_eq_some_iff.1 hb).1
    have hbyte : m.raw.program.checkedByte m.raw.ip = .ok b := by
      have hbyte' : m.raw.program.byteAt? m.raw.ip = some b := hb
      rw [Program.checkedByte, hbyte']
    have hsum : m.raw.ip + 1 ≤ top := Nat.le_trans hlt hm.text
    have hexecute : ({ m.raw with ip := m.raw.ip + 1 } : RawMachine).execute top m.raw.ip
        (.ofByte b) = .ok ((m.execute (.ofByte b)).1, (m.execute (.ofByte b)).2.raw) :=
      execute_raw hm hb rfl
    rw [if_neg (by simp [hc]), if_neg (Nat.not_le.2 hlt), hbyte, Panic.ok_bind, check_of hsum,
      Panic.ok_bind, hexecute, hs]
    rfl

theorem Fits.step (h : m.Fits top) : m.step.2.Fits top where
  text := by
    rw [program_step]
    exact h.text
  cells := by
    rw [capacity_step]
    exact h.cells

theorem finish_raw (result : Except RunError Unit) (m : Machine) :
    m.raw.finish result = ((m.finish result).1, (m.finish result).2.raw) := by
  have hconsole : m.raw.console = m.console := rfl
  rw [RawMachine.finish, hconsole]
  rcases finish_cases result m with ⟨c, hf, h⟩ | ⟨e, c, hf, h⟩
  · rw [hf, h]
    rfl
  · rw [hf, h]
    rfl

/-- Any number of steps pass all their checks. -/
theorem steps_raw (hm : m.Fits top) :
    m.raw.steps top fuel = .ok ((m.steps fuel).map fun (result, last) => (result, last.raw)) := by
  induction fuel generalizing m with
  | zero => rfl
  | succ fuel ih =>
    have hnext := hm.step
    rw [RawMachine.steps, step_raw hm, Panic.ok_bind]
    rcases hs : m.step with ⟨_ | (_ | _), after⟩ <;> rw [hs] at hnext
    · rw [steps_of_error hs]
      rfl
    · rw [steps_of_next hs]
      exact ih hnext
    · rw [steps_of_halted hs]
      rfl

theorem run_raw (hm : m.Fits top) :
    m.raw.run top fuel = .ok ((m.run fuel).map fun (result, last) => (result, last.raw)) := by
  rw [RawMachine.run, steps_raw hm, Panic.ok_bind, run]
  cases m.steps fuel with
  | none => rfl
  | some ended =>
    obtain ⟨result, last⟩ := ended
    simp only [Option.map_some, finish_raw]
    rfl

/-- An action passes all its checks. -/
theorem perform_raw (hm : m.Fits top) (action : Action) :
    m.raw.perform top fuel action =
      .ok ((m.perform fuel action).map fun (answer, last) => (answer, last.raw)) := by
  cases action with
  | step =>
    rw [RawMachine.perform, step_raw hm]
    rfl
  | run =>
    rw [RawMachine.perform, run_raw hm, Panic.ok_bind, perform, Option.map_map, Option.map_map]
    rfl
  | cancel => rfl

theorem Fits.invariant : Invariant (Fits top) where
  step _ h := h.step
  flush m h := by
    obtain ⟨c, hc⟩ := flush_eq_withConsole m
    rw [hc]
    exact ⟨h.text, h.cells⟩
  cancel _ h := ⟨h.text, h.cells⟩

/-- A session passes all its checks. -/
theorem performAll_raw (hm : m.Fits top) (fuel : Nat) (actions : List Action) :
    m.raw.performAll top fuel actions =
      .ok ((m.performAll fuel actions).map fun (answers, last) => (answers, last.raw)) := by
  induction actions generalizing m with
  | nil => rfl
  | cons action rest ih =>
    rw [RawMachine.performAll, perform_raw hm, Panic.ok_bind, performAll]
    cases hp : m.perform fuel action with
    | none => rfl
    | some done =>
      obtain ⟨answer, after⟩ := done
      have hafter : after.Fits top := Fits.invariant.perform hm hp
      simp only [Option.map_some, ih hafter, Panic.ok_bind]
      cases after.performAll fuel rest <;> rfl

end Machine

/-- The state is that of a run of this text on a tape of this capacity, with its index and its
cursor in bounds. -/
structure RawMachine.InBounds (p : Program) (capacity : Nat) (m : RawMachine) : Prop where
  text : m.program = p
  cells : m.tape.cells.size = capacity
  ip_le : m.ip ≤ p.bytes.size
  cursor_lt : m.tape.cursor < capacity

namespace Machine

variable {p : Program} {capacity : Nat}

theorem invariant_inBounds : Invariant fun m => m.raw.InBounds p capacity where
  step m h := by
    have htext : m.program = p := h.text
    have hcells : m.step.2.tape.capacity = capacity := (capacity_step m).trans h.cells
    have hip : m.step.2.ip ≤ m.program.bytes.size := ip_step_le (htext ▸ h.ip_le)
    exact ⟨(program_step m).trans htext, hcells, htext ▸ hip, hcells ▸ m.step.2.tape.cursor_lt⟩
  flush m h := by
    obtain ⟨c, hc⟩ := flush_eq_withConsole m
    rw [hc]
    exact ⟨h.text, h.cells, h.ip_le, h.cursor_lt⟩
  cancel _ h := ⟨h.text, h.cells, h.ip_le, h.cursor_lt⟩

/-- **Reachable states are safe.** Let the length of the text and the number of cells be numbers
of the computer. Then no session panics, whatever the tape, the streams and the flag, and
whatever is done after a failure or at the end of the text: the machine that checks answers what
the machine answers, and leaves it in the same state. And in every state that a session comes
to, between its actions and at each step of its runs, the text and the number of cells are those
of the start, the index is at most the length of the text, and the cursor is on a cell. -/
theorem performAll_safe (top : Nat) (program : Program) (tape : Tape) (console : Console)
    (heeds : Bool) (hprogram : program.bytes.size ≤ top) (htape : tape.capacity ≤ top)
    (fuel : Nat) (actions : List Action) :
    let m := start program tape console heeds
    m.raw.performAll top fuel actions =
      .ok ((m.performAll fuel actions).map fun (answers, last) => (answers, last.raw)) ∧
    (∀ mid ∈ m.trail fuel actions, mid.raw.InBounds program tape.capacity) ∧
    (∀ answers last, m.raw.performAll top fuel actions = .ok (some (answers, last)) →
      last.InBounds program tape.capacity) := by
  intro m
  have hsession := performAll_raw (m := m) ⟨hprogram, htape⟩ fuel actions
  have hstart : m.raw.InBounds program tape.capacity :=
    ⟨rfl, rfl, Nat.zero_le _, tape.cursor_lt⟩
  refine ⟨hsession, fun mid hmid => invariant_inBounds.trail hstart mid hmid, ?_⟩
  intro answers last h
  rw [hsession] at h
  obtain ⟨⟨answers', last'⟩, hperform, heq⟩ := Option.map_eq_some_iff.1 (Except.ok.inj h)
  cases heq
  exact invariant_inBounds.performAll hstart hperform

/-- The moves off the tape in two runs, and the step of a cancelled machine, are no panics. -/
theorem performAll_safe_of_failures :
    (Program.ofString "+[>+]").bytes.size ≤ 2 ^ 64 - 1 ∧ (Tape.blank 2).capacity ≤ 2 ^ 64 - 1 ∧
    ∃ answers last,
      (start (.ofString "+[>+]") (.blank 2) (.make (.ofBytes []) .accepting none)
        true).raw.performAll (2 ^ 64 - 1) 9 [.run, .run, .cancel, .step] =
          .ok (some (answers, last)) ∧
      answers = [.ran (.error (.outOfBounds 2 1 .moveRight)),
        .ran (.error (.outOfBounds 2 1 .moveRight)), .cancelled, .stepped (.error .interrupted)] ∧
      last.InBounds (.ofString "+[>+]") 2 := by
  have hprogram : (Program.ofString "+[>+]").bytes.size ≤ 2 ^ 64 - 1 := by decide
  have htape : (Tape.blank 2).capacity ≤ 2 ^ 64 - 1 := by simp
  obtain ⟨hsession, -, hbounds⟩ := performAll_safe (2 ^ 64 - 1) (.ofString "+[>+]") (.blank 2)
    (.make (.ofBytes []) .accepting none) true hprogram htape 9 [.run, .run, .cancel, .step]
  have hanswers : ((start (.ofString "+[>+]") (.blank 2) (.make (.ofBytes []) .accepting none)
      true).performAll 9 [.run, .run, .cancel, .step]).map Prod.fst =
      some [.ran (.error (.outOfBounds 2 1 .moveRight)),
        .ran (.error (.outOfBounds 2 1 .moveRight)), .cancelled,
        .stepped (.error .interrupted)] := by cbv
  obtain ⟨⟨answers, last⟩, hperform, rfl⟩ := Option.map_eq_some_iff.1 hanswers
  rw [hperform] at hsession
  exact ⟨hprogram, htape, _, last.raw, hsession, rfl, hbounds _ _ hsession⟩

end Machine

end Brainfuck
