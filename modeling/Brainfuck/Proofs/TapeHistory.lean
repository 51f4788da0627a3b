import Brainfuck.Proofs.Run

/-!
# Tapes told by their history

What a tape has come to can be told from what was done to it, without a tape: where its cursor is
from the moves that went through, and what a cell holds from what was done while the cursor was on
it. Moves that were refused might as well not have been made.

* `Tape.Operation`, `Tape.applyAll`, `Tape.history`: operations on a tape, and their outcomes.
* `Tape.position`, `Tape.madeAt`: where the cursor is, and what was done to a cell, told from the
  outcomes alone.
* `Tape.apply_cases`, `Tape.getElem?_apply`: what an operation does.
* `Tape.cursor_applyAll_blank`, `Tape.getElem?_applyAll_blank`: where the cursor is on a fresh tape,
  and what its cells hold.
* `Tape.toNat_content`: what is left of the operations made on a cell.
* `Tape.applyAll_completed`: without the moves that are refused, the tape is the same.
* `Tape.blank_told_by_history`: all of it.
-/

namespace Brainfuck

namespace Tape

/-- What can be done to a tape. -/
inductive Operation where
  | advance
  | retreat
  | increment
  | decrement
  | write (b : UInt8)
  deriving DecidableEq

namespace Operation

/-- How far the operation is to move the cursor. -/
def shift : Operation → Int
  | advance => 1
  | retreat => -1
  | increment | decrement | write _ => 0

/-- What the operation makes of the cell under the cursor. -/
def onCell : Operation → UInt8 → UInt8
  | advance, b | retreat, b => b
  | increment, b => b + 1
  | decrement, b => b - 1
  | write b, _ => b

/-- The byte that the operation writes, if it does. -/
def written? : Operation → Option UInt8
  | write b => some b
  | advance | retreat | increment | decrement => none

theorem onCell_of_written {op : Operation} {b : UInt8} (h : op.written? = some b) (held : UInt8) :
    op.onCell held = b := by
  cases op with
  | write b' => exact Option.some.inj h
  | advance | retreat | increment | decrement => cases h

end Operation

/-- The outcome of a move, and the tape behind it: if the move is refused, the tape as it was. -/
def moved (t : Tape) : Except EdgeError Tape → Except EdgeError Unit × Tape
  | .ok after => (.ok (), after)
  | .error e => (.error e, t)

/-- The outcome of an operation, and the tape behind it. -/
def apply (t : Tape) : Operation → Except EdgeError Unit × Tape
  | .advance => t.moved t.advance
  | .retreat => t.moved t.retreat
  | .increment => (.ok (), t.increment)
  | .decrement => (.ok (), t.decrement)
  | .write b => (.ok (), t.write b)

/-- The tape behind the operations, made in order. -/
def applyAll (t : Tape) (ops : List Operation) : Tape := ops.foldl (fun t op => (t.apply op).2) t

/-- An operation and its outcome. -/
structure Event where
  op : Operation
  result : Except EdgeError Unit
  deriving DecidableEq

/-- The operations, made in order, with their outcomes. -/
def history (t : Tape) : List Operation → List Event
  | [] => []
  | op :: rest => ⟨op, (t.apply op).1⟩ :: (t.apply op).2.history rest

/-- How far the cursor of a fresh tape is from the first cell: the moves to the right that went
through, less those to the left. -/
def position (events : List Event) : Int :=
  events.count ⟨.advance, .ok ()⟩ - events.count ⟨.retreat, .ok ()⟩

/-- The operations that were made while the cursor was on cell `i`. -/
def madeAt (i : Nat) (events : List Event) : List Operation :=
  (events.zipIdx.filter fun (_, k) => position (events.take k) = i).map fun (e, _) => e.op

/-- The byte last written by these operations, and 0 if none was. -/
def lastWritten (made : List Operation) : UInt8 :=
  (made.filterMap Operation.written?).getLast?.getD 0

/-- Those of these operations that came after the last write. -/
def sinceWritten (made : List Operation) : List Operation :=
  made.rtakeWhile fun op => op.written?.isNone

/-- How much these operations add to the cell they are made on, less what they take from it. -/
def balance (made : List Operation) : Int := made.count .increment - made.count .decrement

/-- What these operations, made on it in order, leave in a cell that held 0. -/
def content (made : List Operation) : UInt8 := made.foldl (fun b op => op.onCell b) 0

/-- The operations that went through. -/
def completed (events : List Event) : List Operation :=
  (events.filter fun e => e.result = .ok ()).map Event.op

/-- How far the operation has moved the cursor. -/
def Event.shift (e : Event) : Int := if e.result = .ok () then e.op.shift else 0

variable {t t' : Tape} {op : Operation} {ops : List Operation} {capacity i : Nat}

/-- **An operation goes through**, and moves the cursor as it is to, or it is refused, since it is
to move the cursor off the tape, and leaves the tape as it was. -/
theorem apply_cases (t : Tape) (op : Operation) :
    (∃ t', t.apply op = (.ok (), t') ∧ t'.capacity = t.capacity ∧
      (t'.cursor : Int) = t.cursor + op.shift) ∨
    (t.apply op = (.error t.edge, t) ∧
      ¬(0 ≤ (t.cursor : Int) + op.shift ∧ (t.cursor : Int) + op.shift < t.capacity)) := by
  cases op with
  | advance =>
    cases h : t.advance with
    | ok t' =>
      have hcursor := cursor_of_advance h
      refine .inl ⟨t', by rw [apply, h]; rfl, capacity_advance h, ?_⟩
      rw [hcursor]
      rfl
    | error e =>
      obtain ⟨hlast, rfl⟩ := advance_eq_error_iff.1 h
      refine .inr ⟨by rw [apply, h]; rfl, ?_⟩
      simp only [Operation.shift]
      omega
  | retreat =>
    cases h : t.retreat with
    | ok t' =>
      have hcursor := cursor_of_retreat h
      refine .inl ⟨t', by rw [apply, h]; rfl, capacity_retreat h, ?_⟩
      simp only [Operation.shift]
      omega
    | error e =>
      obtain ⟨hfirst, rfl⟩ := retreat_eq_error_iff.1 h
      refine .inr ⟨by rw [apply, h]; rfl, ?_⟩
      simp only [Operation.shift]
      omega
  | increment => exact .inl ⟨_, rfl, capacity_write t _, (Int.add_zero _).symm⟩
  | decrement => exact .inl ⟨_, rfl, capacity_write t _, (Int.add_zero _).symm⟩
  | write b => exact .inl ⟨_, rfl, capacity_write t b, (Int.add_zero _).symm⟩

/-- **An operation is refused** if it is to move the cursor off the tape. -/
theorem apply_eq_error_iff {e : EdgeError} : (t.apply op).1 = .error e ↔
    ¬(0 ≤ (t.cursor : Int) + op.shift ∧ (t.cursor : Int) + op.shift < t.capacity) ∧
      e = ⟨t.cursor, t.capacity⟩ := by
  rcases apply_cases t op with ⟨t', h, hcapacity, hcursor⟩ | ⟨h, hoff⟩
  · have hlt : t'.cursor < t'.capacity := t'.cursor_lt
    rw [h, ← hcursor, ← hcapacity]
    simp [hlt]
  · rw [h, Except.error.injEq, eq_comm]
    exact (and_iff_right hoff).symm

theorem apply_of_refused (h : (t.apply op).1 ≠ .ok ()) : (t.apply op).2 = t := by
  rcases apply_cases t op with ⟨t', happly, -⟩ | ⟨happly, -⟩
  · rw [happly] at h
    exact absurd rfl h
  · rw [happly]

theorem cells_moved {r : Except EdgeError Tape} (h : ∀ t', r = .ok t' → t'.cells = t.cells) :
    (t.moved r).2.cells = t.cells := by
  cases r with
  | ok t' => exact h t' rfl
  | error e => rfl

/-- **An operation changes the cell under the cursor** and no other. -/
theorem getElem?_apply (t : Tape) (op : Operation) (i : Nat) :
    (t.apply op).2.cells[i]? =
      if t.cursor = i then t.cells[i]?.map op.onCell else t.cells[i]? := by
  have hkept : t.cells[i]? = if t.cursor = i then t.cells[i]?.map id else t.cells[i]? := by simp
  have hwrite (f : UInt8 → UInt8) : (t.write (f t.read)).cells[i]? =
      if t.cursor = i then t.cells[i]?.map f else t.cells[i]? := by
    rw [getElem?_write]
    by_cases hi : t.cursor = i
    · rw [if_pos hi, if_pos hi, ← hi, getElem?_cursor, Option.map_some]
    · rw [if_neg hi, if_neg hi]
  cases op with
  | advance =>
    rw [apply, cells_moved fun _ => cells_of_advance]
    exact hkept
  | retreat =>
    rw [apply, cells_moved fun _ => cells_of_retreat]
    exact hkept
  | increment => exact hwrite (· + 1)
  | decrement => exact hwrite (· - 1)
  | write b => exact hwrite fun _ => b

theorem applyAll_concat (t : Tape) (ops : List Operation) (op : Operation) :
    t.applyAll (ops ++ [op]) = ((t.applyAll ops).apply op).2 := by
  simp [applyAll]

theorem history_concat (t : Tape) (ops : List Operation) (op : Operation) :
    t.history (ops ++ [op]) = t.history ops ++ [⟨op, ((t.applyAll ops).apply op).1⟩] := by
  induction ops generalizing t with
  | nil => rfl
  | cons first rest ih => exact congrArg (_ :: ·) (ih _)

theorem map_op_history (t : Tape) (ops : List Operation) : (t.history ops).map Event.op = ops := by
  induction ops generalizing t with
  | nil => rfl
  | cons op rest ih => exact congrArg (op :: ·) (ih _)

theorem capacity_apply (t : Tape) (op : Operation) : (t.apply op).2.capacity = t.capacity := by
  rcases apply_cases t op with ⟨t', h, hcapacity, -⟩ | ⟨h, -⟩
  · rw [h]
    exact hcapacity
  · rw [h]

theorem capacity_applyAll (t : Tape) (ops : List Operation) :
    (t.applyAll ops).capacity = t.capacity := by
  induction ops using List.reverseRecOn with
  | nil => rfl
  | append_singleton ops op ih => rw [applyAll_concat, capacity_apply, ih]

theorem cursor_apply (t : Tape) (op : Operation) :
    ((t.apply op).2.cursor : Int) = t.cursor + Event.shift ⟨op, (t.apply op).1⟩ := by
  rcases apply_cases t op with ⟨t', h, -, hcursor⟩ | ⟨h, -⟩
  · rw [h, hcursor]
    rfl
  · rw [h]
    exact (Int.add_zero _).symm

theorem position_append (events later : List Event) :
    position (events ++ later) = position events + position later := by
  simp only [position, List.count_append]
  omega

theorem position_singleton (e : Event) : position [e] = e.shift := by
  obtain ⟨op, result⟩ := e
  cases op <;> cases result <;> rfl

/-- **The cursor of a fresh tape** is as far from the first cell as the moves that went through have
taken it. -/
theorem cursor_applyAll_blank (capacity : Nat) (ops : List Operation) :
    (((blank capacity).applyAll ops).cursor : Int) = position ((blank capacity).history ops) := by
  induction ops using List.reverseRecOn with
  | nil => rfl
  | append_singleton ops op ih =>
    rw [applyAll_concat, history_concat, position_append, position_singleton, cursor_apply, ih]

theorem madeAt_concat (i : Nat) (events : List Event) (e : Event) :
    madeAt i (events ++ [e]) =
      madeAt i events ++ if position events = i then [e.op] else [] := by
  -- what an event of the history finds before it is there without the last event
  have hbefore : (events.zipIdx.filter fun (_, k) => position ((events ++ [e]).take k) = i) =
      events.zipIdx.filter fun (_, k) => position (events.take k) = i := by
    apply List.filter_congr
    rintro ⟨e', k⟩ h
    have hk : k ≤ events.length := (List.mem_zipIdx' h).1.le
    simp only [List.take_append_of_le_length hk]
  have hlast : (events ++ [e]).take events.length = events := List.take_left
  rw [madeAt, List.zipIdx_append, List.filter_append, hbefore, List.map_append, madeAt]
  by_cases hi : position events = i <;> simp [hi, hlast]

theorem madeAt_history_concat (capacity i : Nat) (ops : List Operation) (op : Operation) :
    madeAt i ((blank capacity).history (ops ++ [op])) = madeAt i ((blank capacity).history ops) ++
      if ((blank capacity).applyAll ops).cursor = i then [op] else [] := by
  rw [history_concat, madeAt_concat, ← cursor_applyAll_blank]
  simp only [Int.natCast_inj]

theorem content_concat (made : List Operation) (op : Operation) :
    content (made ++ [op]) = op.onCell (content made) := by
  simp [content]

/-- **A cell of a fresh tape** holds what the operations that were made on it leave. -/
theorem getElem?_applyAll_blank (h : i < max capacity 1) (ops : List Operation) :
    ((blank capacity).applyAll ops).cells[i]? =
      some (content (madeAt i ((blank capacity).history ops))) := by
  induction ops using List.reverseRecOn with
  | nil =>
    have hzero : (blank capacity).cells[i]? = some 0 := by
      rw [blank, Array.getElem?_replicate, if_pos h]
    exact hzero
  | append_singleton ops op ih =>
    -- the last operation is one of those made on the cell just when it may change it
    rw [applyAll_concat, madeAt_history_concat, getElem?_apply, ih]
    by_cases hi : ((blank capacity).applyAll ops).cursor = i
    · rw [if_pos hi, if_pos hi, content_concat, Option.map_some]
    · rw [if_neg hi, if_neg hi, List.append_nil]

theorem lastWritten_concat (made : List Operation) (op : Operation) :
    lastWritten (made ++ [op]) = op.written?.getD (lastWritten made) := by
  cases h : op.written? <;> simp [lastWritten, h]

theorem sinceWritten_concat (made : List Operation) (op : Operation) :
    sinceWritten (made ++ [op]) = if op.written?.isNone then sinceWritten made ++ [op] else [] :=
  List.rtakeWhile_concat _ _ _

theorem balance_append (made later : List Operation) :
    balance (made ++ later) = balance made + balance later := by
  simp only [balance, List.count_append]
  omega

/-- An operation that is no write adds to the cell, or takes from it, modulo 256. -/
theorem toNat_onCell (h : op.written? = none) (b : UInt8) :
    ((op.onCell b).toNat : Int) = (b.toNat + balance [op]) % 256 := by
  have hb := b.toNat_lt
  cases op with
  | advance | retreat =>
    change (b.toNat : Int) = (b.toNat + 0) % 256
    omega
  | increment =>
    change ((b + 1).toNat : Int) = (b.toNat + 1) % 256
    rw [UInt8.toNat_add]
    rfl
  | decrement =>
    change ((b - 1).toNat : Int) = (b.toNat - 1) % 256
    rw [UInt8.toNat_sub, UInt8.toNat_one]
    omega
  | write b' => cases h

/-- **What operations leave in a cell**: the byte last written, and what was added and taken since,
modulo 256. -/
theorem toNat_content (made : List Operation) :
    ((content made).toNat : Int) =
      ((lastWritten made).toNat + balance (sinceWritten made)) % 256 := by
  induction made using List.reverseRecOn with
  | nil => rfl
  | append_singleton made op ih =>
    rw [content_concat, lastWritten_concat, sinceWritten_concat]
    cases h : op.written? with
    | none =>
      calc ((op.onCell (content made)).toNat : Int)
          = ((content made).toNat + balance [op]) % 256 := toNat_onCell h _
        _ = ((lastWritten made).toNat + balance (sinceWritten made) + balance [op]) % 256 := by
          rw [ih, Int.emod_add_emod]
        _ = ((lastWritten made).toNat + balance (sinceWritten made ++ [op])) % 256 := by
          rw [balance_append, Int.add_assoc]
    | some b =>
      -- a write forgets what was made before it
      have hb := b.toNat_lt
      have hcell : op.onCell (content made) = b := Operation.onCell_of_written h _
      rw [hcell]
      change (b.toNat : Int) = (b.toNat + 0) % 256
      omega

/-- On a cell that the cursor was never on, no operation was made. -/
theorem madeAt_eq_nil
    (h : ∀ before, before <+: ops → ((blank capacity).applyAll before).cursor ≠ i) :
    madeAt i ((blank capacity).history ops) = [] := by
  induction ops using List.reverseRecOn with
  | nil => rfl
  | append_singleton ops op ih =>
    have hops : ((blank capacity).applyAll ops).cursor ≠ i := h ops (List.prefix_append ops [op])
    have hmade := ih fun before hbefore => h before (List.prefix_append_of_prefix hbefore)
    rw [madeAt_history_concat, hmade, if_neg hops]
    rfl

theorem history_cons {r : Except EdgeError Unit} (h : t.apply op = (r, t')) (ops : List Operation) :
    t.history (op :: ops) = ⟨op, r⟩ :: t'.history ops := by
  rw [history, h]

theorem applyAll_cons {r : Except EdgeError Unit} (h : t.apply op = (r, t'))
    (ops : List Operation) : t.applyAll (op :: ops) = t'.applyAll ops := by
  rw [applyAll, List.foldl_cons, h, applyAll]

/-- Without the moves that are refused, the operations go through as they did. -/
theorem history_completed (t : Tape) (ops : List Operation) :
    t.history (completed (t.history ops)) = (t.history ops).filter fun e => e.result = .ok () := by
  induction ops generalizing t with
  | nil => rfl
  | cons op rest ih =>
    rcases apply_cases t op with ⟨t', h, -⟩ | ⟨h, -⟩
    · rw [history_cons h]
      exact (history_cons h _).trans (congrArg (_ :: ·) (ih t'))
    · -- the rest is made on the same tape, with the refused move or without it
      rw [history_cons h]
      exact ih t

/-- **Without the moves that are refused**, the tape is the same. -/
theorem applyAll_completed (t : Tape) (ops : List Operation) :
    t.applyAll (completed (t.history ops)) = t.applyAll ops := by
  induction ops generalizing t with
  | nil => rfl
  | cons op rest ih =>
    rcases apply_cases t op with ⟨t', h, -⟩ | ⟨h, -⟩
    · rw [history_cons h, applyAll_cons h]
      exact (applyAll_cons h _).trans (ih t')
    · rw [history_cons h, applyAll_cons h]
      exact ih t

/-- **A tape told by its history.** Let operations be made in order on a fresh tape, of which moves
may be refused. A capacity of 0 counts as 1, and the number of cells stays.

The cursor is on a cell, as many cells from the first as there are more moves to the right than
moves to the left among those that went through. An operation is refused if and only if it is to
move the cursor off the tape; then it reports where the cursor stayed and the number of cells, and
leaves the tape as it was.

A cell holds the byte that was last written while the cursor was on it, or 0 if none was, with the
increments made on it since and less the decrements, modulo 256. A cell that the cursor was never on
holds 0.

Without the operations that were refused, all go through, and the tape is the same. -/
theorem blank_told_by_history (capacity : Nat) (ops : List Operation) :
    let t := (blank capacity).applyAll ops
    let events := (blank capacity).history ops
    events.map Event.op = ops ∧ t.capacity = max capacity 1 ∧
    ((t.cursor : Int) = position events ∧ t.cursor < max capacity 1) ∧
    (∀ before op later, ops = before ++ op :: later →
      let s := (blank capacity).applyAll before
      (∀ e, (s.apply op).1 = .error e ↔
        ¬(0 ≤ (s.cursor : Int) + op.shift ∧ (s.cursor : Int) + op.shift < max capacity 1) ∧
          e = ⟨s.cursor, max capacity 1⟩) ∧
      ((s.apply op).1 ≠ .ok () → (s.apply op).2 = s)) ∧
    (∀ i < max capacity 1, ∃ b, t.cells[i]? = some b ∧
      (b.toNat : Int) = ((lastWritten (madeAt i events)).toNat +
        balance (sinceWritten (madeAt i events))) % 256) ∧
    (∀ i < max capacity 1,
      (∀ before, before <+: ops → ((blank capacity).applyAll before).cursor ≠ i) →
        t.cells[i]? = some 0) ∧
    (blank capacity).applyAll (completed events) = t ∧
    ∀ e ∈ (blank capacity).history (completed events), e.result = .ok () := by
  intro t events
  have hcapacity (ops : List Operation) :
      ((blank capacity).applyAll ops).capacity = max capacity 1 :=
    (capacity_applyAll _ ops).trans (capacity_blank capacity)
  refine ⟨map_op_history _ ops, hcapacity ops, ⟨cursor_applyAll_blank capacity ops, ?_⟩, ?_, ?_,
    ?_, applyAll_completed _ ops, ?_⟩
  · exact hcapacity ops ▸ t.cursor_lt
  · intro before op later _ s
    have hs : s.capacity = max capacity 1 := hcapacity before
    rw [← hs]
    exact ⟨fun e => apply_eq_error_iff, apply_of_refused⟩
  · intro i hi
    exact ⟨_, getElem?_applyAll_blank hi ops, toNat_content _⟩
  · intro i hi hnever
    have hcell := getElem?_applyAll_blank hi ops
    rwa [madeAt_eq_nil hnever] at hcell
  · intro e he
    rw [history_completed, List.mem_filter] at he
    exact of_decide_eq_true he.2

/-- A move off the left end, cells that go round at 256 both ways, and a cell that is never come
to. -/
theorem blank_told_by_history_of_wrapping_cells :
    let rest : List Operation :=
      [.decrement, .advance, .write 254, .increment, .increment, .increment, .retreat]
    let t := (blank 3).applyAll (.retreat :: rest)
    (.retreat :: rest = [] ++ .retreat :: rest ∧ 0 < max 3 1 ∧ 1 < max 3 1 ∧ 2 < max 3 1 ∧
      ∀ before, before <+: .retreat :: rest → ((blank 3).applyAll before).cursor ≠ 2) ∧
    ((blank 3).apply .retreat).1 = .error ⟨0, 3⟩ ∧
    (∃ b : UInt8, t.cells[0]? = some b ∧ (b.toNat : Int) = (0 + -1) % 256) ∧
    (∃ b : UInt8, t.cells[1]? = some b ∧ (b.toNat : Int) = (254 + 3) % 256) ∧
    t.cells[2]? = some 0 ∧ (blank 3).applyAll rest = t := by
  intro rest t
  obtain ⟨-, -, -, hrefused, hcells, hnever, hcompleted, -⟩ :=
    blank_told_by_history 3 (.retreat :: rest)
  have hsplit : .retreat :: rest = [] ++ .retreat :: rest := rfl
  have hunvisited : ∀ before, before <+: .retreat :: rest →
      ((blank 3).applyAll before).cursor ≠ 2 := by
    have hinits : ∀ before ∈ (.retreat :: rest : List Operation).inits,
        ((blank 3).applyAll before).cursor ≠ 2 := by decide
    exact fun before h => hinits before ((List.mem_inits _ _).2 h)
  have hoff : ((blank 3).apply .retreat).1 = .error ⟨0, 3⟩ :=
    ((hrefused [] .retreat rest hsplit).1 ⟨0, 3⟩).2 ⟨by decide, rfl⟩
  have hfirst : madeAt 0 ((blank 3).history (.retreat :: rest)) =
      [.retreat, .decrement, .advance] := by decide
  have hsecond : madeAt 1 ((blank 3).history (.retreat :: rest)) =
      [.write 254, .increment, .increment, .increment, .retreat] := by decide
  have hgone : completed ((blank 3).history (.retreat :: rest)) = rest := by decide
  have hcell₀ := hcells 0 (by decide)
  have hcell₁ := hcells 1 (by decide)
  rw [hfirst] at hcell₀
  rw [hsecond] at hcell₁
  rw [hgone] at hcompleted
  exact ⟨⟨hsplit, by decide, by decide, by decide, hunvisited⟩, hoff, hcell₀, hcell₁,
    hnever 2 (by decide) hunvisited, hcompleted⟩

end Tape

end Brainfuck
