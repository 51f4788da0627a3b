import Brainfuck.Proofs.Scan
import Brainfuck.Proofs.Session

/-!
# Left and right

The two moves check the two ends of the tape in different ways, and yet they differ only in their
direction: with the moves exchanged, a program does on the reversed tape what it did before.

* `Tape.advance_mirror`, `Tape.retreat_mirror`: a move on the reversed tape is the other move.
* `Program.closerAfter?_mirror`, `Program.openerBefore?_mirror`: loops stay where they are.
* `Machine.edge_of_step`: a refused move is one over the end that the cursor is at.
* `Machine.step_mirror`: a step of the mirror image.
* `Machine.mirror_image_runs_alike`: any number of steps, runs and sessions.
-/

namespace Brainfuck

namespace Opcode

/-- The command with left and right exchanged. -/
def mirror : Opcode → Opcode
  | .moveRight => .moveLeft
  | .moveLeft => .moveRight
  | op => op

/-- The byte of the command with left and right exchanged. -/
def mirrorByte (b : UInt8) : UInt8 := if b = 0x3E then 0x3C else if b = 0x3C then 0x3E else b

theorem mirrorByte_mirrorByte (b : UInt8) : mirrorByte (mirrorByte b) = b := by
  grind [mirrorByte]

theorem ofByte_mirrorByte (b : UInt8) : ofByte (mirrorByte b) = (ofByte b).mirror := by
  by_cases hr : b = 0x3E
  · subst hr
    rfl
  by_cases hl : b = 0x3C
  · subst hl
    rfl
  · -- any other byte is kept, and stands for no move
    rw [mirrorByte, if_neg hr, if_neg hl, ofByte, if_neg hr, if_neg hl]
    split_ifs <;> rfl

theorem mirrorByte_eq_openByte (b : UInt8) : mirrorByte b = openByte ↔ b = openByte := by
  grind [mirrorByte]

theorem mirrorByte_eq_closeByte (b : UInt8) : mirrorByte b = closeByte ↔ b = closeByte := by
  grind [mirrorByte]

end Opcode

namespace Program

/-- The program with all its moves exchanged. -/
def mirror (p : Program) : Program := ⟨p.bytes.map Opcode.mirrorByte⟩

variable (p : Program)

@[simp] theorem size_bytes_mirror : p.mirror.bytes.size = p.bytes.size := Array.size_map

theorem mirror_mirror : p.mirror.mirror = p := by
  simp [mirror, Function.comp_def, Opcode.mirrorByte_mirrorByte]

theorem text_mirror : p.mirror.text = p.text.map Opcode.mirrorByte := Array.toList_map

theorem byteAt?_mirror (i : Nat) : p.mirror.byteAt? i = (p.byteAt? i).map Opcode.mirrorByte :=
  Array.getElem?_map

/-- **An open** finds its close where it was. -/
theorem closerAfter?_mirror (i : Nat) : p.mirror.closerAfter? i = p.closerAfter? i := by
  rw [closerAfter?_eq_partner?, closerAfter?_eq_partner?, text_mirror, ← List.map_drop,
    partner?_map Opcode.mirrorByte_eq_openByte Opcode.mirrorByte_eq_closeByte]

/-- **A close** finds its open where it was. -/
theorem openerBefore?_mirror {j : Nat} (h : j ≤ p.bytes.size) :
    p.mirror.openerBefore? j = p.openerBefore? j := by
  have hle : j ≤ p.mirror.bytes.size := by rwa [size_bytes_mirror]
  rw [openerBefore?_eq_partner? _ hle, openerBefore?_eq_partner? _ h, text_mirror,
    ← List.map_take, ← List.map_reverse,
    partner?_map Opcode.mirrorByte_eq_closeByte Opcode.mirrorByte_eq_openByte]

end Program

namespace Tape

/-- The tape with its cells reversed, and the cursor on the same cell. -/
def mirror (t : Tape) : Tape where
  cells := t.cells.reverse
  cursor := t.capacity - 1 - t.cursor
  cursor_lt := by
    rw [Array.size_reverse]
    exact Nat.sub_one_sub_lt t.cursor_lt

variable (t : Tape)

@[simp] theorem cells_mirror : t.mirror.cells = t.cells.reverse := rfl

@[simp] theorem cursor_mirror : t.mirror.cursor = t.capacity - 1 - t.cursor := rfl

@[simp] theorem capacity_mirror : t.mirror.capacity = t.capacity := Array.size_reverse

@[simp] theorem mirror_mirror : t.mirror.mirror = t := by
  obtain ⟨cells, cursor, hlt⟩ := t
  simp only [mirror, capacity, Array.reverse_reverse, Array.size_reverse, mk.injEq, true_and]
  omega

@[simp] theorem read_mirror : t.mirror.read = t.read := by
  have hlt := t.cursor_lt
  simp only [read, cells_mirror, cursor_mirror, capacity]
  rw [Array.getElem_reverse]
  congr 1
  omega

theorem write_mirror (b : UInt8) : t.mirror.write b = (t.write b).mirror := by
  have hlt := t.cursor_lt
  simp only [write, mirror, capacity, Array.size_set, mk.injEq, and_true]
  -- cell by cell: the one written to is the same, counted from either end
  apply Array.ext
  · simp only [Array.size_set, Array.size_reverse]
  · intro i hi hi'
    simp only [Array.size_set, Array.size_reverse] at hi hi'
    rw [Array.getElem_set, Array.getElem_reverse, Array.getElem_reverse, Array.getElem_set]
    simp only [Array.size_set]
    by_cases hcell : t.cells.size - 1 - t.cursor = i
    · rw [if_pos hcell, if_pos (by omega)]
    · rw [if_neg hcell, if_neg (by omega)]

/-- **A move to the right** on the reversed tape is one to the left. -/
theorem advance_mirror :
    t.mirror.advance = (t.retreat.map mirror).mapError fun _ => t.mirror.edge := by
  have hlt := t.cursor_lt
  unfold advance retreat
  -- the first cell is the last one of the reversed tape
  by_cases hz : t.cursor = 0
  · have hedge : ¬t.mirror.cursor + 1 < t.mirror.cells.size := by
      simp only [cells_mirror, cursor_mirror, Array.size_reverse, capacity]
      omega
    rw [if_pos hz, dif_neg hedge]
    rfl
  · have hinside : t.mirror.cursor + 1 < t.mirror.cells.size := by
      simp only [cells_mirror, cursor_mirror, Array.size_reverse, capacity]
      omega
    rw [if_neg hz, dif_pos hinside]
    simp only [Except.map, Except.mapError, mirror, capacity, Except.ok.injEq, mk.injEq, true_and]
    omega

/-- **A move to the left** on the reversed tape is one to the right. -/
theorem retreat_mirror :
    t.mirror.retreat = (t.advance.map mirror).mapError fun _ => t.mirror.edge := by
  have hlt := t.cursor_lt
  unfold advance retreat
  -- the last cell is the first one of the reversed tape
  by_cases hlast : t.cursor + 1 < t.cells.size
  · have hinside : t.mirror.cursor ≠ 0 := by
      simp only [cursor_mirror, capacity]
      omega
    rw [dif_pos hlast, if_neg hinside]
    simp only [Except.map, Except.mapError, mirror, capacity, Except.ok.injEq, mk.injEq, true_and]
    omega
  · have hedge : t.mirror.cursor = 0 := by
      simp only [cursor_mirror, capacity]
      omega
    rw [dif_neg hlast, if_pos hedge]
    rfl

end Tape

/-- The error of the mirror image, on a tape of this capacity. -/
def RunError.mirror (capacity : Nat) : RunError → RunError
  | .outOfBounds ip cursor op => .outOfBounds ip (capacity - 1 - cursor) op.mirror
  | e => e

namespace Machine

/-- The mirror image of the machine: its moves exchanged, and its tape reversed. -/
def mirror (m : Machine) : Machine := { m with program := m.program.mirror, tape := m.tape.mirror }

variable {m : Machine} {op op' : Opcode} {ip cursor : Nat}

theorem mirror_mirror (m : Machine) : m.mirror.mirror = m := by
  simp [mirror, Program.mirror_mirror]

/-- A move is refused at the end of the tape that it would leave, and nothing else is. -/
theorem edge_of_execute (h : (m.execute op).1 = .error (.outOfBounds ip cursor op')) :
    op' = op ∧ cursor = m.tape.cursor ∧
      (op = .moveRight ∧ m.tape.cursor + 1 = m.tape.capacity ∨
        op = .moveLeft ∧ m.tape.cursor = 0) := by
  cases op with
  | moveRight =>
    cases hmove : m.tape.advance with
    | ok t => simp [execute, hmove] at h
    | error e =>
      obtain ⟨hlast, rfl⟩ := Tape.advance_eq_error_iff.1 hmove
      simp only [execute, hmove] at h
      cases h
      exact ⟨rfl, rfl, .inl ⟨rfl, hlast⟩⟩
  | moveLeft =>
    cases hmove : m.tape.retreat with
    | ok t => simp [execute, hmove] at h
    | error e =>
      obtain ⟨hfirst, rfl⟩ := Tape.retreat_eq_error_iff.1 hmove
      simp only [execute, hmove] at h
      cases h
      exact ⟨rfl, rfl, .inr ⟨rfl, hfirst⟩⟩
  | increment => cases h
  | decrement => cases h
  | output =>
    rw [execute, outputCell_eq] at h
    cases hput : (m.console.put m.tape.read).1 <;> rw [hput] at h <;> cases h
  | input =>
    rw [execute] at h
    rcases inputCell_cases m with ⟨_, _, -, heq⟩ | ⟨_, -, -, heq⟩ | ⟨_, _, _, -, -, -, heq⟩ <;>
      rw [heq] at h <;> cases h
  | openLoop =>
    by_cases hz : m.tape.read = 0
    · cases hj : m.program.closerAfter? m.ip <;> simp [execute, hz, hj] at h
    · simp [execute, hz] at h
  | closeLoop =>
    by_cases hz : m.tape.read = 0
    · simp [execute, hz] at h
    · cases hj : m.program.openerBefore? m.ip <;> simp [execute, hz, hj] at h
  | noOp => cases h

/-- **A refused move** is one over the end of the tape that the cursor is at. -/
theorem edge_of_step (h : m.step.1 = .error (.outOfBounds ip cursor op)) :
    cursor = m.tape.cursor ∧
      (op = .moveRight ∧ cursor + 1 = m.tape.capacity ∨ op = .moveLeft ∧ cursor = 0) := by
  rcases step_error_cases h with ⟨-, heq, -⟩ | ⟨-, -, b, -, he, -⟩
  · cases heq
  · obtain ⟨rfl, rfl, hedge⟩ := edge_of_execute he
    exact ⟨rfl, hedge⟩

/-- An instruction that is no move is refused none. -/
theorem mapError_mirror_execute (hr : op ≠ .moveRight) (hl : op ≠ .moveLeft) (m : Machine)
    (capacity : Nat) :
    (m.execute op).1.mapError (.mirror capacity) = (m.execute op).1 := by
  cases he : (m.execute op).1 with
  | ok => rfl
  | error e =>
    cases e with
    | outOfBounds ip cursor op' =>
      obtain ⟨-, -, ⟨hop, -⟩ | ⟨hop, -⟩⟩ := edge_of_execute he
      · exact absurd hop hr
      · exact absurd hop hl
    | _ => rfl

/-- **An instruction of the mirror image** does the same on the other side. -/
theorem execute_mirror (op : Opcode) (hip : m.ip ≤ m.program.bytes.size) :
    m.mirror.execute op.mirror =
      ((m.execute op).1.mapError (.mirror m.tape.capacity), (m.execute op).2.mirror) := by
  by_cases hr : op = .moveRight
  · subst hr
    have hmove := m.tape.retreat_mirror
    cases h : m.tape.advance with
    | ok t =>
      rw [h] at hmove
      simp [execute, Opcode.mirror, mirror, h, hmove, Except.map, Except.mapError]
    | error e =>
      obtain ⟨-, rfl⟩ := Tape.advance_eq_error_iff.1 h
      rw [h] at hmove
      simp [execute, Opcode.mirror, mirror, h, hmove, Except.map, Except.mapError, Tape.edge,
        RunError.mirror]
  by_cases hl : op = .moveLeft
  · subst hl
    have hmove := m.tape.advance_mirror
    cases h : m.tape.retreat with
    | ok t =>
      rw [h] at hmove
      simp [execute, Opcode.mirror, mirror, h, hmove, Except.map, Except.mapError]
    | error e =>
      obtain ⟨-, rfl⟩ := Tape.retreat_eq_error_iff.1 h
      rw [h] at hmove
      simp [execute, Opcode.mirror, mirror, h, hmove, Except.map, Except.mapError, Tape.edge,
        RunError.mirror]
  · have hop : op.mirror = op := by
      cases op with
      | moveRight => exact absurd rfl hr
      | moveLeft => exact absurd rfl hl
      | _ => rfl
    -- the program changes first, and then the tape
    have htext : (m.relocate m.program.mirror id).execute op =
        ((m.execute op).1, (m.execute op).2.relocate m.program.mirror id) := by
      have h := execute_relocate_of_partner op m m.program.mirror (f := id) rfl ?_ ?_
        (fun _ _ => rfl)
      · rwa [mapError_eq_self RunError.mapIp_id] at h
      · intro _
        rw [Option.map_id]
        exact m.program.closerAfter?_mirror m.ip
      · intro _
        rw [Option.map_id]
        exact m.program.openerBefore?_mirror hip
    have htape := execute_mapTape Tape.read_mirror Tape.write_mirror hr hl
      (m.relocate m.program.mirror id)
    rw [htext] at htape
    rw [hop, mapError_mirror_execute hr hl, mirror, mirror, program_execute]
    exact htape

/-- **A step of the mirror image** does the same on the other side. -/
theorem step_mirror (m : Machine) :
    m.mirror.step = (m.step.1.mapError (.mirror m.tape.capacity), m.step.2.mirror) := by
  have hbyte : m.mirror.program.byteAt? m.mirror.ip =
      (m.program.byteAt? m.ip).map Opcode.mirrorByte := m.program.byteAt?_mirror m.ip
  refine step_mapError rfl rfl ?_ ?_
  · intro hb
    rw [hbyte, hb]
    rfl
  · intro b _ hb
    have hle : m.ip ≤ m.program.bytes.size := Nat.le_of_lt (Array.getElem?_eq_some_iff.1 hb).1
    refine ⟨Opcode.mirrorByte b, by rw [hbyte, hb]; rfl, ?_⟩
    rw [Opcode.ofByte_mirrorByte]
    exact execute_mirror _ hle

theorem flush_mirror (capacity : Nat) (m : Machine) :
    m.mirror.flush = (m.flush.1.mapError (.mirror capacity), m.flush.2.mirror) := by
  unfold flush
  rw [show m.mirror.console = m.console from rfl]
  rcases m.console.flush with ⟨_ | _, c⟩ <;> rfl

theorem after_mirror (m : Machine) (n : Nat) : m.mirror.after n = (m.after n).mirror := by
  refine after_map ?_
  intro k _
  rw [step_mirror]

theorem performAll_mirror (m : Machine) (fuel : Nat) (actions : List Action) :
    m.mirror.performAll fuel actions = (m.performAll fuel actions).map fun r =>
      (r.1.map (.mapError (.mirror m.tape.capacity)), r.2.mirror) := by
  refine performAll_map (flush_mirror m.tape.capacity) (fun _ => rfl) ?_
  intro mid hmid
  -- no step of the session changes the number of cells
  have hcapacity := (invariant_capacity m.tape.capacity).trail rfl mid hmid
  rw [step_mirror, hcapacity]

/-- Two results of which each is the mirror image of the other fail with errors of which each is
that of the other. -/
theorem error_iff_of_mirror {capacity : Nat} {r r' : Except RunError Step} {e e' : RunError}
    (hr : r' = r.mapError (.mirror capacity)) (hr' : r = r'.mapError (.mirror capacity))
    (he : e.mirror capacity = e') (he' : e'.mirror capacity = e) :
    r = .error e ↔ r' = .error e' := by
  constructor <;> intro h
  · rw [hr, h, ← he]
    rfl
  · rw [hr', h, ← he']
    rfl

/-- **A program and its mirror image do the same on opposite sides.** Exchange `<` and `>` in a
program, reverse the cells of its tape, whatever their number, and leave the cursor on the same
cell. The console, with its streams, its flag and its calls, stays as it is.

Before each step the index and the console are those of the program as it was, the cells are its
cells in reverse, and the cursor is as far from the right end as it was from the left. The step
answers the same, except that a refused move is the other move, and its cursor the other end: so a
move to the right is refused on the last cell exactly when its image is refused on the first.

The same holds of any session, with its runs and cancellations. -/
theorem mirror_image_runs_alike (program : Program) (tape : Tape) (console : Console)
    (heeds : Bool) :
    let m := start program tape console heeds
    let image := start program.mirror tape.mirror console heeds
    (∀ n,
      (image.after n).step.1 = (m.after n).step.1.mapError (.mirror tape.capacity) ∧
      (image.after n).ip = (m.after n).ip ∧
      (image.after n).console = (m.after n).console ∧
      (image.after n).tape.cells = (m.after n).tape.cells.reverse ∧
      (image.after n).tape.cursor = tape.capacity - 1 - (m.after n).tape.cursor) ∧
    (∀ n ip,
      (∀ cursor op, (m.after n).step.1 = .error (.outOfBounds ip cursor op) →
        op = .moveRight ∧ cursor = tape.capacity - 1 ∨ op = .moveLeft ∧ cursor = 0) ∧
      ((m.after n).step.1 = .error (.outOfBounds ip (tape.capacity - 1) .moveRight) ↔
        (image.after n).step.1 = .error (.outOfBounds ip 0 .moveLeft)) ∧
      ((m.after n).step.1 = .error (.outOfBounds ip 0 .moveLeft) ↔
        (image.after n).step.1 = .error (.outOfBounds ip (tape.capacity - 1) .moveRight))) ∧
    (∀ fuel actions, image.performAll fuel actions = (m.performAll fuel actions).map fun r =>
      (r.1.map (.mapError (.mirror tape.capacity)), r.2.mirror)) := by
  intro m image
  have hafter : ∀ n, image.after n = (m.after n).mirror := after_mirror m
  have hcapacity : ∀ n, (m.after n).tape.capacity = tape.capacity := capacity_after
  have hstep : ∀ n, (image.after n).step.1 =
      (m.after n).step.1.mapError (.mirror tape.capacity) := by
    intro n
    rw [hafter, step_mirror, hcapacity]
  -- the mirror image of the image is the machine itself
  have hback : ∀ n, (m.after n).step.1 =
      (image.after n).step.1.mapError (.mirror tape.capacity) := by
    intro n
    have himage : (image.after n).mirror = m.after n := by rw [hafter, mirror_mirror]
    have hsame : (image.after n).tape.capacity = tape.capacity := by
      rw [capacity_after]
      exact tape.capacity_mirror
    rw [← himage, step_mirror, hsame]
  have hright : ∀ ip, (RunError.outOfBounds ip (tape.capacity - 1) .moveRight).mirror
      tape.capacity = .outOfBounds ip 0 .moveLeft := by simp [RunError.mirror, Opcode.mirror]
  have hleft : ∀ ip, (RunError.outOfBounds ip 0 .moveLeft).mirror tape.capacity =
      .outOfBounds ip (tape.capacity - 1) .moveRight := by simp [RunError.mirror, Opcode.mirror]
  refine ⟨?_, ?_, performAll_mirror m⟩
  · intro n
    refine ⟨hstep n, ?_, ?_, ?_, ?_⟩
    · rw [hafter]
      rfl
    · rw [hafter]
      rfl
    · rw [hafter]
      rfl
    · rw [hafter, ← hcapacity n]
      rfl
  · intro n ip
    refine ⟨?_, ?_, ?_⟩
    · intro cursor op h
      rcases edge_of_step h with ⟨-, ⟨hop, hlast⟩ | hleft⟩
      · rw [hcapacity] at hlast
        exact .inl ⟨hop, by omega⟩
      · exact .inr hleft
    · exact error_iff_of_mirror (hstep n) (hback n) (hright ip) (hleft ip)
    · exact error_iff_of_mirror (hstep n) (hback n) (hleft ip) (hright ip)

/-- Over the right end of two cells, and so over the left end. -/
theorem mirror_image_runs_alike_of_fall :
    let m := start (.ofString "+[>+]") (.blank 2) (.make (.ofBytes []) .accepting none) true
    let image := start (.ofString "+[<+]") (Tape.blank 2).mirror
      (.make (.ofBytes []) .accepting none) true
    (m.after 5).step.1 = .error (.outOfBounds 2 1 .moveRight) ∧
    (image.after 5).step.1 = .error (.outOfBounds 2 0 .moveLeft) := by
  intro m image
  have hprogram : (Program.ofString "+[>+]").mirror = .ofString "+[<+]" := by cbv
  have hfall : (m.after 5).step.1 = .error (.outOfBounds 2 1 .moveRight) := by cbv
  obtain ⟨-, hedge, -⟩ := mirror_image_runs_alike (.ofString "+[>+]") (.blank 2)
    (.make (.ofBytes []) .accepting none) true
  rw [hprogram] at hedge
  exact ⟨hfall, (hedge 5 2).2.1.1 hfall⟩

end Machine

end Brainfuck
