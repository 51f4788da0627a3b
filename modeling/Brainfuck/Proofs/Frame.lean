import Brainfuck.Proofs.Run

/-!
# The frame rule for tapes

A run sees no cell of its tape but those that its cursor comes to, and only a refused move tells
it where the tape ends. So more cells on both sides change nothing, as long as no move is
refused, and the new cells stay as they are.

* `Tape.widen`: a tape with more cells on both sides.
* `Machine.step_widen`: a step that is refused no move does the same on the wider tape.
* `Machine.after_widen`, `Machine.run_widen`: so do any number of steps, and runs.
* `Machine.frame_rule`: what this means for the cells.
-/

namespace Brainfuck

namespace Tape

/-- The tape with more cells on both sides, and the cursor on the same cell. -/
def widen (left right : Array UInt8) (t : Tape) : Tape where
  cells := left ++ t.cells ++ right
  cursor := left.size + t.cursor
  cursor_lt := by
    have := t.cursor_lt
    simp only [Array.size_append]
    omega

variable {left right : Array UInt8} {t t' : Tape}

@[simp] theorem cells_widen : (t.widen left right).cells = left ++ t.cells ++ right := rfl

@[simp] theorem cursor_widen : (t.widen left right).cursor = left.size + t.cursor := rfl

@[simp] theorem read_widen : (t.widen left right).read = t.read := by
  have hlt := t.cursor_lt
  simp only [read, cells_widen, cursor_widen]
  rw [Array.getElem_append_left (by simpa using hlt), Array.getElem_append_right (by omega)]
  congr 1
  omega

theorem write_widen (b : UInt8) : (t.widen left right).write b = (t.write b).widen left right := by
  have hlt := t.cursor_lt
  simp only [write, widen, mk.injEq, and_true]
  rw [Array.set_append_left (by simpa using hlt),
    Array.set_append_right (by simpa using hlt) (by omega)]
  congr 3
  omega

/-- A move to the right that is not refused has a cell to go to on the wider tape too. -/
theorem advance_widen (h : t.advance = .ok t') :
    (t.widen left right).advance = .ok (t'.widen left right) := by
  unfold advance at h ⊢
  split at h
  · rename_i hlt
    cases h
    have hwide : (t.widen left right).cursor + 1 < (t.widen left right).cells.size := by
      simp only [cells_widen, cursor_widen, Array.size_append]
      omega
    rw [dif_pos hwide]
    simp [widen, Nat.add_assoc]
  · cases h

theorem retreat_widen (h : t.retreat = .ok t') :
    (t.widen left right).retreat = .ok (t'.widen left right) := by
  unfold retreat at h ⊢
  split at h
  · cases h
  · rename_i hpos
    cases h
    have hwide : (t.widen left right).cursor ≠ 0 := by
      simp only [cursor_widen]
      omega
    rw [if_neg hwide]
    simp only [widen, Except.ok.injEq, mk.injEq, true_and]
    omega

/-- A larger blank tape is a blank tape with blank cells behind it. -/
theorem blank_add {n : Nat} (h : 0 < n) (more : Nat) :
    blank (n + more) = (blank n).widen #[] (.replicate more 0) := by
  simp only [blank, widen, mk.injEq]
  constructor
  · rw [Nat.max_eq_left (by omega), Nat.max_eq_left h, Array.empty_append,
      Array.replicate_append_replicate]
  · simp

end Tape

namespace Machine

/-- The machine on a tape with more cells on both sides. -/
def widen (left right : Array UInt8) (m : Machine) : Machine :=
  { m with tape := m.tape.widen left right }

variable {left right : Array UInt8} {m : Machine}

/-- An instruction that is refused no move does the same on the wider tape. -/
theorem execute_widen (op : Opcode)
    (h : ∀ ip cursor op', (m.execute op).1 ≠ .error (.outOfBounds ip cursor op')) :
    (m.widen left right).execute op = ((m.execute op).1, (m.execute op).2.widen left right) := by
  by_cases hr : op = .moveRight
  · subst hr
    cases hmove : m.tape.advance with
    | ok tape => simp [execute, widen, hmove, Tape.advance_widen hmove]
    | error edge => exact absurd (by simp [execute, hmove]) (h m.ip edge.cursor .moveRight)
  by_cases hl : op = .moveLeft
  · subst hl
    cases hmove : m.tape.retreat with
    | ok tape => simp [execute, widen, hmove, Tape.retreat_widen hmove]
    | error edge => exact absurd (by simp [execute, hmove]) (h m.ip edge.cursor .moveLeft)
  · exact execute_mapTape (fun _ => Tape.read_widen) (fun _ => Tape.write_widen) hr hl m

/-- **A step that is refused no move** does the same on the wider tape. -/
theorem step_widen (left right : Array UInt8)
    (h : ∀ ip cursor op, m.step.1 ≠ .error (.outOfBounds ip cursor op)) :
    (m.widen left right).step = (m.step.1, m.step.2.widen left right) := by
  refine step_map rfl id ?_
  intro b hc hb
  refine ⟨b, hb, execute_widen _ ?_⟩
  intro ip cursor op he
  apply h ip cursor op
  rw [step_of_byte hc hb, he]
  rfl

theorem after_widen {n : Nat}
    (h : ∀ k < n, ∀ ip cursor op, (m.after k).step.1 ≠ .error (.outOfBounds ip cursor op)) :
    (m.widen left right).after n = (m.after n).widen left right :=
  after_map fun k hk => congrArg Prod.snd (step_widen left right (h k hk))

theorem steps_widen {fuel : Nat}
    (h : ∀ ip cursor op last, m.steps fuel ≠ some (.error (.outOfBounds ip cursor op), last)) :
    (m.widen left right).steps fuel =
      (m.steps fuel).map fun r => (r.1, r.2.widen left right) := by
  refine steps_map ?_
  intro j hj hproceeds
  refine step_widen left right ?_
  intro ip cursor op he
  -- the error of this step would be the result
  obtain ⟨k, rfl⟩ : ∃ k, fuel = k + 1 + j := ⟨fuel - j - 1, by omega⟩
  apply h ip cursor op (m.after j).step.2
  rw [steps_add hproceeds, steps_of_error (Prod.ext he rfl)]

theorem flush_widen (m : Machine) :
    (m.widen left right).flush = (m.flush.1, m.flush.2.widen left right) := by
  rcases h : m.console.flush with ⟨_ | _, c⟩ <;> simp [flush, widen, h]

theorem finish_widen (result : Except RunError Unit) (m : Machine) :
    (m.widen left right).finish result =
      ((m.finish result).1, (m.finish result).2.widen left right) := by
  cases result <;> simp [finish, flush_widen]

/-- **A run that is refused no move** is the same on the wider tape, also one without an end. -/
theorem run_widen {fuel : Nat}
    (h : ∀ ip cursor op last, m.run fuel ≠ some (.error (.outOfBounds ip cursor op), last)) :
    (m.widen left right).run fuel =
      (m.run fuel).map fun r => (r.1, r.2.widen left right) := by
  have hsteps : ∀ ip cursor op last,
      m.steps fuel ≠ some (.error (.outOfBounds ip cursor op), last) := by
    intro ip cursor op last hs
    exact h ip cursor op _ (run_eq_some_iff.2 ⟨_, last, hs, rfl⟩)
  rw [run, run, steps_widen hsteps, Option.map_map, Option.map_map]
  congr 1
  funext ended
  exact finish_widen ended.1 ended.2

/-- **The frame rule for tapes.** Any machine is compared with the same machine on a tape that
has more cells on both sides, with the cursor on the same cell.

If none of the first `n` steps is refused a move off the tape, these steps answer the same on
the wider tape, any other error included. They go through the same indexes and the same console:
the same input left, output, buffer, flag and calls. On the wider tape the cells are those of
the tape between the new cells, which stay as they were, and the cursor is on the same cell.

So a run that is refused no move is the same on the wider tape, whether it ends or not. A
larger blank tape is a wider one in this sense. -/
theorem frame_rule (m : Machine) (left right : Array UInt8) :
    (∀ n, (∀ k < n, ∀ ip cursor op, (m.after k).step.1 ≠ .error (.outOfBounds ip cursor op)) →
      (∀ k < n, ((m.widen left right).after k).step.1 = (m.after k).step.1) ∧
      ∀ k ≤ n,
        ((m.widen left right).after k).ip = (m.after k).ip ∧
        ((m.widen left right).after k).console = (m.after k).console ∧
        ((m.widen left right).after k).tape.cells = left ++ (m.after k).tape.cells ++ right ∧
        ((m.widen left right).after k).tape.cursor = left.size + (m.after k).tape.cursor) ∧
    (∀ fuel,
      (∀ ip cursor op last, m.run fuel ≠ some (.error (.outOfBounds ip cursor op), last)) →
      (m.widen left right).run fuel =
        (m.run fuel).map fun r => (r.1, r.2.widen left right)) ∧
    (∀ capacity more, 0 < capacity →
      Tape.blank (capacity + more) = (Tape.blank capacity).widen #[] (.replicate more 0)) := by
  refine ⟨?_, fun fuel h => run_widen h, fun capacity more h => Tape.blank_add h more⟩
  intro n h
  have hafter : ∀ k ≤ n, (m.widen left right).after k = (m.after k).widen left right :=
    fun k hk => after_widen fun j hj => h j (by omega)
  constructor
  · intro k hk
    rw [hafter k (by omega), step_widen left right (h k hk)]
  · intro k hk
    rw [hafter k hk]
    exact ⟨rfl, rfl, rfl, rfl⟩

/-- On a tape of two cells, and on the same two cells between two others, no move is refused
and the close has no partner. -/
theorem frame_rule_of_unmatched :
    let m := start (.ofString ">+<+]") (.blank 2) (.make (.ofBytes []) .accepting none) true
    (∀ k < 5, ∀ ip cursor op, (m.after k).step.1 ≠ .error (.outOfBounds ip cursor op)) ∧
      ((m.widen #[7] #[9]).after 4).step.1 = .error (.unmatchedBracket 4 .closing) ∧
      ((m.widen #[7] #[9]).after 5).tape.cells = #[7, 1, 1, 9] := by
  intro m
  have hresults : (List.range 5).map (fun k => (m.after k).step.1) =
      [.ok .next, .ok .next, .ok .next, .ok .next, .error (.unmatchedBracket 4 .closing)] := by
    cbv
  have hinside : ∀ k < 5, ∀ ip cursor op,
      (m.after k).step.1 ≠ .error (.outOfBounds ip cursor op) := by
    intro k hk ip cursor op he
    have hmem : (m.after k).step.1 ∈ (List.range 5).map (fun k => (m.after k).step.1) :=
      List.mem_map.2 ⟨k, List.mem_range.2 hk, rfl⟩
    rw [hresults, he] at hmem
    simp at hmem
  obtain ⟨hresult, hstate⟩ := (frame_rule m #[7] #[9]).1 5 hinside
  have hcells : (m.after 5).tape.cells = #[1, 1] := by cbv
  refine ⟨hinside, ?_, ?_⟩
  · rw [hresult 4 (by decide)]
    cbv
  · rw [(hstate 5 (by decide)).2.2.1, hcells]
    rfl

end Machine

end Brainfuck
