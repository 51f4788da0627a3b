import Brainfuck.Proofs.Partners
import Brainfuck.Proofs.Session

/-!
# Failures

A step fails exactly when it must: the machine has been asked to stop, or its next instruction has
a move off the tape, a jump without a partner or an output that refuses before it. What fails
changes nothing but the index, and the console if the output was at fault. A run returns the first
error of its steps, and the error of its closing flush only if there is none.

* `Machine.Fails`: what each instruction fails at.
* `Machine.execute_eq_error_iff`, `Machine.step_eq_error_iff`: an instruction and a step fail at
  this and at nothing else.
* `Machine.frame_of_execute_error`, `Machine.frame_of_step_error`: what a failure leaves alone.
* `Machine.returns_iff_ends`: the error of a run.
* `Machine.raises_of_perform`, `Machine.raises_of_performAll`: where the errors of an action and of
  a session come from.
* `Machine.fails_exactly_when_it_must`: all of this.
-/

namespace Brainfuck

namespace Program

variable {p : Program} {i j : Nat}

theorem closerAfter?_eq_none_iff_partners (hi : p.byteAt? i = some openByte) :
    p.closerAfter? i = none ↔ ∀ j, ¬p.Partners i j := by
  rw [Option.eq_none_iff_forall_ne_some]
  simp only [ne_eq, closerAfter?_eq_some_iff hi, pair_iff_partners]

theorem openerBefore?_eq_none_iff_partners (hj : p.byteAt? j = some closeByte) :
    p.openerBefore? j = none ↔ ∀ i, ¬p.Partners i j := by
  rw [Option.eq_none_iff_forall_ne_some]
  simp only [ne_eq, openerBefore?_eq_some_iff hj, pair_iff_partners]

end Program

namespace Machine

variable {m last : Machine} {op : Opcode} {e : RunError} {b : UInt8} {fuel : Nat}
  {result : Except RunError Unit}

/-- What an instruction at the index fails at, and with which error. -/
def Fails (m : Machine) (op : Opcode) (e : RunError) : Prop :=
  match op with
  | .moveRight =>
    m.tape.cursor + 1 = m.tape.capacity ∧ e = .outOfBounds m.ip m.tape.cursor .moveRight
  | .moveLeft => m.tape.cursor = 0 ∧ e = .outOfBounds m.ip m.tape.cursor .moveLeft
  | .openLoop =>
    m.tape.read = 0 ∧ (∀ j, ¬m.program.Partners m.ip j) ∧ e = .unmatchedBracket m.ip .opening
  | .closeLoop =>
    m.tape.read ≠ 0 ∧ (∀ i, ¬m.program.Partners i m.ip) ∧ e = .unmatchedBracket m.ip .closing
  | .output => ∃ cause, (m.console.put m.tape.read).1 = .error cause ∧ e = .output m.ip cause
  | .input => ∃ cause, m.console.flush.1 = .error cause ∧ e = .output m.ip cause
  | .increment | .decrement | .noOp => False

/-- **An instruction fails exactly when it must.** -/
theorem execute_eq_error_iff (hb : m.program.byteAt? m.ip = some b)
    (hop : Opcode.ofByte b = op) : (m.execute op).1 = .error e ↔ m.Fails op e := by
  cases op with
  | moveRight =>
    unfold Fails
    cases h : m.tape.advance with
    | ok tape =>
      have hroom : ¬m.tape.cursor + 1 = m.tape.capacity := by
        intro hlast
        have := Tape.advance_eq_error_iff.2 ⟨hlast, rfl⟩
        rw [h] at this
        cases this
      simp [execute, h, hroom]
    | error edge =>
      obtain ⟨hlast, rfl⟩ := Tape.advance_eq_error_iff.1 h
      simp [execute, h, hlast, Tape.edge, eq_comm]
  | moveLeft =>
    unfold Fails
    cases h : m.tape.retreat with
    | ok tape =>
      have hroom : ¬m.tape.cursor = 0 := by
        intro hfirst
        have := Tape.retreat_eq_error_iff.2 ⟨hfirst, rfl⟩
        rw [h] at this
        cases this
      simp [execute, h, hroom]
    | error edge =>
      obtain ⟨hfirst, rfl⟩ := Tape.retreat_eq_error_iff.1 h
      simp [execute, h, hfirst, Tape.edge, eq_comm]
  | openLoop =>
    have hopen : m.program.byteAt? m.ip = some openByte := by rw [hb, Opcode.eq_openByte hop]
    unfold Fails
    rw [← Program.closerAfter?_eq_none_iff_partners hopen]
    by_cases hz : m.tape.read = 0
    · cases hj : m.program.closerAfter? m.ip <;> simp [execute, hz, hj, eq_comm]
    · simp [execute, hz]
  | closeLoop =>
    have hclose : m.program.byteAt? m.ip = some closeByte := by rw [hb, Opcode.eq_closeByte hop]
    unfold Fails
    rw [← Program.openerBefore?_eq_none_iff_partners hclose]
    by_cases hz : m.tape.read = 0
    · simp [execute, hz]
    · cases hi : m.program.openerBefore? m.ip <;> simp [execute, hz, hi, eq_comm]
  | output =>
    unfold Fails
    rw [execute, outputCell_eq]
    cases (m.console.put m.tape.read).1 <;> simp [Except.mapError, eq_comm]
  | input =>
    unfold Fails
    rw [execute]
    rcases inputCell_cases m with
      ⟨cause, c, hf, h⟩ | ⟨c, hf, -, h⟩ | ⟨c, answer, d, hf, -, -, h⟩ <;>
      simp [h, hf, eq_comm]
  | increment => simp [execute, Fails]
  | decrement => simp [execute, Fails]
  | noOp => simp [execute, Fails]

/-- **A step fails exactly when it must.** -/
theorem step_eq_error_iff :
    m.step.1 = .error e ↔
      (m.isCancelled = true ∧ e = .interrupted) ∨
      (m.isCancelled = false ∧ ∃ op, m.program.opAt? m.ip = some op ∧ m.Fails op e) := by
  rcases step_cases m with ⟨hc, hs⟩ | ⟨hc, hb, hs⟩ | ⟨b, hc, hb, hs⟩
  · simp [hc, hs, eq_comm]
  · simp [hc, hs, Program.opAt?, hb]
  · have hop : m.program.opAt? m.ip = some (.ofByte b) := by rw [Program.opAt?, hb, Option.map_some]
    have hexecute : (m.execute (.ofByte b)).1 = .error e ↔ m.Fails (.ofByte b) e :=
      execute_eq_error_iff hb rfl
    simp only [hc, hs, hop, Option.some.injEq, exists_eq_left', ← hexecute, Bool.false_eq_true,
      false_and, true_and, false_or]
    cases (m.execute (.ofByte b)).1 <;> simp [Except.map]

/-- **An instruction that fails** only moves the index on. If the output is at fault, it may have
taken a part of what was pending; the input is as before. -/
theorem frame_of_execute_error (h : (m.execute op).1 = .error e) :
    ∃ c, (m.execute op).2 = m.next.withConsole c ∧ c.source = m.console.source ∧
      ((∀ ip cause, e ≠ .output ip cause) → c = m.console) := by
  by_cases ho : op = .output
  · subst ho
    rw [execute, outputCell_eq] at h ⊢
    refine ⟨_, rfl, (Console.outputInvariant_source m.console.source).put _ rfl, ?_⟩
    intro hne
    cases hput : (m.console.put m.tape.read).1 <;> rw [hput] at h <;> cases h
    exact absurd rfl (hne _ _)
  by_cases hi : op = .input
  · subst hi
    rw [execute] at h ⊢
    rcases inputCell_cases m with ⟨cause, c, hf, heq⟩ | ⟨_, -, -, heq⟩ | ⟨_, _, _, -, -, -, heq⟩ <;>
      rw [heq] at h ⊢ <;> cases h
    have hsource := (Console.outputInvariant_source m.console.source).flush rfl
    rw [hf] at hsource
    exact ⟨c, rfl, hsource, fun hne => absurd rfl (hne _ _)⟩
  · rcases execute_cases ho hi m with ⟨_, _, heq⟩ | ⟨_, heq⟩ | ⟨_, heq⟩ <;>
      rw [heq] at h ⊢ <;> cases h
    · exact ⟨m.console, rfl, rfl, fun _ => rfl⟩
    · exact ⟨m.console, rfl, rfl, fun _ => rfl⟩

/-- **A step that fails** changes the index and, if the output is at fault, the console. -/
theorem frame_of_step_error (h : m.step.1 = .error e) :
    ∃ c, m.step.2 = { m with ip := if e = .interrupted then m.ip else m.ip + 1, console := c } ∧
      c.source = m.console.source ∧ ((∀ ip cause, e ≠ .output ip cause) → c = m.console) := by
  rcases step_error_cases h with ⟨-, rfl, hs⟩ | ⟨-, hwhere, b, -, he, hs⟩
  · exact ⟨m.console, hs, rfl, fun _ => rfl⟩
  · obtain ⟨c, hframe, hsource, hsame⟩ := frame_of_execute_error he
    have hne : e ≠ .interrupted := by
      rintro rfl
      cases hwhere
    refine ⟨c, ?_, hsource, hsame⟩
    rw [hs, hframe, if_neg hne]
    rfl

/-- A step that fails in some place does so where the machine stands. -/
theorem ip_of_step_error {ip : Nat} (hs : m.step.1 = .error e) (h : e.ip? = some ip) :
    ip = m.ip := by
  rcases step_error_cases hs with ⟨-, rfl, -⟩ | ⟨-, hwhere, -⟩
  · cases h
  · exact Option.some.inj (h.symm.trans hwhere)

/-- A flush changes nothing but what stands between the machine and its sink. -/
theorem frame_of_flush (m : Machine) :
    ∃ c, m.flush.2 = { m with console := c } ∧ c.source = m.console.source := by
  have hsource := (Console.outputInvariant_source m.console.source).flush rfl
  unfold flush
  rcases hf : m.console.flush with ⟨_ | _, c⟩ <;> rw [hf] at hsource <;> exact ⟨c, rfl, hsource⟩

theorem flush_eq_error_iff :
    m.flush.1 = .error e ↔ ∃ cause, m.console.flush.1 = .error cause ∧ e = .output m.ip cause := by
  unfold flush
  rcases m.console.flush with ⟨cause | _, c⟩ <;> simp [eq_comm]

theorem step_eq_halted_iff :
    m.step.1 = .ok .halted ↔ m.isCancelled = false ∧ m.program.byteAt? m.ip = none := by
  rcases step_cases m with ⟨hc, hs⟩ | ⟨hc, hb, hs⟩ | ⟨b, hc, hb, hs⟩
  · simp [hc, hs]
  · simp [hc, hb, hs]
  · rw [hs, hb]
    cases (m.execute (.ofByte b)).1 <;> simp [Except.map]

/-- How a run can end at a machine: its step fails, and the output is flushed all the same; or it
stands at the end of its text, and the flush has the last word. -/
inductive Ends (m : Machine) : Except RunError Unit → Machine → Prop where
  | failed {e : RunError} : m.step.1 = .error e → Ends m (.error e) m.step.2.flush.2
  | halted : m.step.1 = .ok .halted → Ends m m.flush.1 m.flush.2

theorem ends_of_run (h : m.run fuel = some (result, last)) :
    ∃ k < fuel, m.Proceeds k ∧ (m.after k).Ends result last := by
  obtain ⟨ended, mid, hs, hf⟩ := run_eq_some_iff.1 h
  obtain ⟨k, hk, hproceeds, hlast⟩ := exists_last_step hs
  refine ⟨k, hk, hproceeds, ?_⟩
  cases ended with
  | error e =>
    have hstep := step_of_last_error hlast
    cases hf
    have hmid : mid = (m.after k).step.2 := by rw [hstep]
    rw [hmid]
    exact .failed (by rw [hstep])
  | ok _ =>
    obtain ⟨rfl, hend⟩ := eq_of_last_ok hlast
    have hdown : (m.after k).isCancelled = false := by
      cases hc : (m.after k).isCancelled with
      | false => rfl
      | true =>
        rw [steps_of_error (step_of_cancelled hc)] at hlast
        cases hlast
    cases hf
    exact .halted (step_eq_halted_iff.2 ⟨hdown, hend⟩)

/-- **A run returns the first error of its steps**, or what its closing flush answers if there is
none. -/
theorem returns_iff_ends :
    m.Returns result last ↔ ∃ k, m.Proceeds k ∧ (m.after k).Ends result last := by
  constructor
  · rintro ⟨fuel, h⟩
    obtain ⟨k, -, hk⟩ := ends_of_run h
    exact ⟨k, hk⟩
  · rintro ⟨k, hproceeds, hends⟩
    refine returns_iff.2 ⟨1 + k, ?_⟩
    rw [steps_add hproceeds]
    cases hends with
    | @failed e hs => exact ⟨.error e, _, steps_of_error (Prod.ext hs rfl) 0, rfl⟩
    | halted hs =>
      obtain ⟨hdown, hend⟩ := step_eq_halted_iff.1 hs
      exact ⟨.ok (), _, steps_of_halted (step_of_end hdown hend) 0, rfl⟩

/-- The error that an action answered, if any. -/
def Answer.error? : Answer → Option RunError
  | .stepped (.error e) | .ran (.error e) => some e
  | .stepped (.ok _) | .ran (.ok _) | .cancelled => none

section session

variable {action : Action} {actions : List Action} {answer : Answer} {answers : List Answer}

/-- Where a machine stands, an error comes up that an action answers: of its step, or of the closing
flush of a run that has come to the end of the text. -/
def Raises (m : Machine) (e : RunError) (answer : Answer) : Prop :=
  m.step.1 = .error e ∨
    (m.step.1 = .ok .halted ∧ m.flush.1 = .error e ∧ answer = .ran (.error e))

theorem Ends.raises (h : m.Ends (.error e) last) : m.Raises e (.ran (.error e)) := by
  generalize hresult : (.error e : Except RunError Unit) = result at h
  cases h with
  | failed hs =>
    cases hresult
    exact .inl hs
  | halted hs => exact .inr ⟨hs, hresult.symm, congrArg Answer.ran hresult.symm⟩

/-- An error that an action answers comes up at one of its steps. -/
theorem raises_of_perform (h : m.perform fuel action = some (answer, last))
    (he : answer.error? = some e) : ∃ mid ∈ m.actionTrail fuel action, mid.Raises e answer := by
  cases action with
  | step =>
    simp only [perform, Option.some.injEq, Prod.mk.injEq] at h
    obtain ⟨rfl, rfl⟩ := h
    refine ⟨m, List.mem_singleton_self m, .inl ?_⟩
    cases hs : m.step.1 <;> rw [hs] at he <;> cases he
    rfl
  | run =>
    obtain ⟨⟨result, after⟩, hr, heq⟩ := Option.map_eq_some_iff.1 h
    cases heq
    obtain ⟨k, hk, hproceeds, hends⟩ := ends_of_run hr
    cases result with
    | ok _ => cases he
    | error e' =>
      cases he
      exact ⟨m.after k, after_mem_stepTrail hk hproceeds, hends.raises⟩
  | cancel =>
    cases h
    cases he

/-- **An error that a session answers** comes up at one of its steps. -/
theorem raises_of_performAll (h : m.performAll fuel actions = some (answers, last))
    (ha : answer ∈ answers) (he : answer.error? = some e) :
    ∃ mid ∈ m.trail fuel actions, mid.Raises e answer := by
  induction actions generalizing m answers with
  | nil =>
    cases h
    cases ha
  | cons action rest ih =>
    simp only [performAll] at h
    split at h
    · cases h
    · rename_i first next hp
      obtain ⟨⟨answers', last'⟩, hrest, heq⟩ := Option.map_eq_some_iff.1 h
      cases heq
      simp only [trail, hp, List.mem_append]
      rcases List.mem_cons.1 ha with rfl | ha
      · obtain ⟨mid, hmid, hraises⟩ := raises_of_perform hp he
        exact ⟨mid, .inl hmid, hraises⟩
      · obtain ⟨mid, hmid, hraises⟩ := ih hrest ha
        exact ⟨mid, .inr hmid, hraises⟩

/-- The machine stands at a bracket of this side, on a cell on which it has to jump. -/
def MustJump (m : Machine) : Side → Prop
  | .opening => m.program.opAt? m.ip = some .openLoop ∧ m.tape.read = 0
  | .closing => m.program.opAt? m.ip = some .closeLoop ∧ m.tape.read ≠ 0

/-- **A bracket without a partner** is in the way only of a machine that has to jump from it. -/
theorem mustJump_of_raises {ip : Nat} {side : Side}
    (h : m.Raises (.unmatchedBracket ip side) answer) : m.ip = ip ∧ m.MustJump side := by
  rcases h with hs | ⟨-, hf, -⟩
  · rcases step_eq_error_iff.1 hs with ⟨-, heq⟩ | ⟨-, op, hop, hfails⟩
    · cases heq
    · cases op with
      | openLoop =>
        obtain ⟨hz, -, heq⟩ := hfails
        cases heq
        exact ⟨rfl, hop, hz⟩
      | closeLoop =>
        obtain ⟨hz, -, heq⟩ := hfails
        cases heq
        exact ⟨rfl, hop, hz⟩
      | moveRight => cases hfails.2
      | moveLeft => cases hfails.2
      | output =>
        obtain ⟨_, -, heq⟩ := hfails
        cases heq
      | input =>
        obtain ⟨_, -, heq⟩ := hfails
        cases heq
      | increment => cases hfails
      | decrement => cases hfails
      | noOp => cases hfails
  · obtain ⟨_, -, heq⟩ := flush_eq_error_iff.1 hf
    cases heq

end session

/-- **A step fails exactly when it must, and changes nothing but the index when it does.** Let a
machine be in any state.

Its step is refused if the machine heeds the flag and has been asked to stop. Otherwise it fails
just if there is an instruction left, and this is a move from the last cell it could move to, a
bracket that has to jump and has no partner in the text, a `.` whose byte the output does not take,
or a `,` before which the output cannot be flushed; and the error tells where, and at which cursor,
by which opcode or on which side. Then the cells, the cursor and the input are as before, and the
index has moved on by one; it has not if the step is refused. The console is as before if the output
is not at fault.

A run returns the first error of its steps, and flushes the output behind it. If there is none, it
returns the error of its closing flush, at the index of the end. This flush changes the console
alone, and not its input.

In a session, whatever it does after failures, a bracket is reported only if a step began at it on
a cell on which it had to jump. -/
theorem fails_exactly_when_it_must (m : Machine) :
    (∀ e, m.step.1 = .error e ↔
      (m.isCancelled = true ∧ e = .interrupted) ∨
      (m.isCancelled = false ∧ ∃ op, m.program.opAt? m.ip = some op ∧ m.Fails op e)) ∧
    (∀ e, m.step.1 = .error e → ∃ c,
      m.step.2 = { m with ip := if e = .interrupted then m.ip else m.ip + 1, console := c } ∧
      c.source = m.console.source ∧ ((∀ ip cause, e ≠ .output ip cause) → c = m.console)) ∧
    (∀ e last, m.Returns (.error e) last ↔ ∃ k, m.Proceeds k ∧
      (((m.after k).step.1 = .error e ∧ last = (m.after k).step.2.flush.2) ∨
        ∃ cause, (m.after k).isCancelled = false ∧ m.program.size ≤ (m.after k).ip ∧
          (m.after k).console.flush.1 = .error cause ∧ e = .output (m.after k).ip cause ∧
          last = (m.after k).flush.2)) ∧
    (∃ c, m.flush.2 = { m with console := c } ∧ c.source = m.console.source) ∧
    (m.ip ≤ m.program.size → ∀ k, (m.after k).ip ≤ m.program.size) ∧
    (∀ fuel actions answers last, m.performAll fuel actions = some (answers, last) →
      ∀ ip side, (∀ mid ∈ m.trail fuel actions, mid.ip = ip → ¬mid.MustJump side) →
        ∀ answer ∈ answers, answer.error? ≠ some (.unmatchedBracket ip side)) := by
  refine ⟨fun _ => step_eq_error_iff, fun _ => frame_of_step_error, ?_, frame_of_flush m,
    ip_after_le, ?_⟩
  · intro e last
    rw [returns_iff_ends]
    refine exists_congr fun k => and_congr_right fun _ => ?_
    constructor
    · intro hends
      generalize hresult : (.error e : Except RunError Unit) = result at hends
      cases hends with
      | failed hs =>
        cases hresult
        exact .inl ⟨hs, rfl⟩
      | halted hs =>
        obtain ⟨hdown, hend⟩ := step_eq_halted_iff.1 hs
        obtain ⟨cause, hcause, rfl⟩ := flush_eq_error_iff.1 hresult.symm
        rw [Program.byteAt?_eq_none_iff, program_after] at hend
        exact .inr ⟨cause, hdown, hend, hcause, rfl, rfl⟩
    · rintro (⟨hs, rfl⟩ | ⟨cause, hdown, hend, hcause, rfl, rfl⟩)
      · exact .failed hs
      · rw [← program_after k, ← Program.byteAt?_eq_none_iff] at hend
        rw [← flush_eq_error_iff.2 ⟨cause, hcause, rfl⟩]
        exact .halted (step_eq_halted_iff.2 ⟨hdown, hend⟩)
  · intro fuel actions answers last h ip side hnever answer ha he
    obtain ⟨mid, hmid, hraises⟩ := raises_of_performAll h ha he
    obtain ⟨hip, hjump⟩ := mustJump_of_raises hraises
    exact hnever mid hmid hip hjump

/-- The first open has no partner and is passed on a cell that is not zero, the second is reached
on a zero cell; the run behind it ends at the last cell. -/
theorem fails_exactly_when_it_must_of_brackets :
    let m := start (.ofString "+[-[>") (.blank 1) (.make (.ofBytes []) .accepting none) true
    (∀ j, ¬m.program.Partners 3 j) ∧ (m.after 4).tape = (m.after 3).tape ∧
    m.Returns (.error (.unmatchedBracket 3 .opening)) (m.after 4).flush.2 ∧
    ∃ answers last, m.performAll 9 [.run, .run] = some (answers, last) ∧
      answers.map Answer.error? =
        [some (.unmatchedBracket 3 .opening), some (.outOfBounds 4 0 .moveRight)] ∧
      ∀ answer ∈ answers, answer.error? ≠ some (.unmatchedBracket 1 .opening) := by
  intro m
  obtain ⟨-, -, hreturns, -, -, hsession⟩ := fails_exactly_when_it_must m
  obtain ⟨hfails, hframe, -, -, -, -⟩ := fails_exactly_when_it_must (m.after 3)
  have hstep : (m.after 3).step.1 = .error (.unmatchedBracket 3 .opening) := by cbv
  have hproceeds : m.Proceeds 3 := by
    intro j hj
    interval_cases j <;> cbv
  refine ⟨?_, ?_, (hreturns _ _).2 ⟨3, hproceeds, .inl ⟨hstep, rfl⟩⟩, ?_⟩
  · rcases (hfails _).1 hstep with ⟨-, heq⟩ | ⟨-, op, hop, hfail⟩
    · cases heq
    · have hopen : (m.after 3).program.opAt? (m.after 3).ip = some .openLoop := by cbv
      rw [hopen] at hop
      cases hop
      exact hfail.2.1
  · obtain ⟨c, hafter, -, -⟩ := hframe _ hstep
    rw [after, hafter]
  · obtain ⟨⟨answers, last⟩, hperform⟩ := Option.isSome_iff_exists.1
      (show (m.performAll 9 [.run, .run]).isSome = true by cbv)
    have hanswers : (m.performAll 9 [.run, .run]).map (fun r => r.1.map Answer.error?) =
        some [some (.unmatchedBracket 3 .opening), some (.outOfBounds 4 0 .moveRight)] := by cbv
    rw [hperform] at hanswers
    refine ⟨answers, last, hperform, Option.some.inj hanswers, hsession 9 _ _ _ hperform 1 _ ?_⟩
    have hcells : (m.trail 9 [.run, .run]).all
        (fun mid => mid.ip != 1 || mid.tape.read != 0) = true := by cbv
    rintro mid hmid hip ⟨-, hz⟩
    have h := List.all_eq_true.1 hcells mid hmid
    simp [hip, hz] at h

end Machine

end Brainfuck
