import Brainfuck.Proofs.Output
import Brainfuck.Proofs.Session

/-!
# No byte of output is lost

Whatever the sink does, and whatever is done with the machine after a failure, the bytes that
the sink has accepted followed by the bytes that wait in the buffer are the values of the cells
that were printed, in the order in which they were printed.

* `Machine.sent_step`: a step adds the byte of a `.` that succeeds, and nothing else.
* `Machine.accepted_append_pending`: the same for any session.
-/

namespace Brainfuck

namespace Console

theorem sent_cancelIf (c : Console) (b : Bool) : (c.cancelIf b).sent = c.sent := by
  cases b <;> rfl

theorem sent_read (c : Console) : c.read.2.sent = c.sent := by
  simp only [read, sent_cancelIf]
  rfl

end Console

namespace Machine

/-- Will the next step carry out a `.` without an error? -/
def prints (m : Machine) : Bool :=
  m.program.opAt? m.ip == some .output && m.step.1 == .ok .next

variable {m last : Machine} {fuel : Nat}

theorem sent_awaitRead (c : Console) (heeds : Bool) : (awaitRead c heeds).2.sent = c.sent := by
  cases heeds
  · exact Console.sent_read c
  · exact Console.sent_read (c.await true)

theorem sent_outputCell (m : Machine) :
    m.outputCell.2.console.sent =
      m.console.sent ++ if m.outputCell.1 = .ok () then #[m.tape.read] else #[] := by
  rw [outputCell_eq]
  rcases h : m.console.put m.tape.read with ⟨e | _, c⟩
  · have hs := (Console.served_of_put h).sent_of_error e rfl
    simp [Except.mapError, hs]
  · have hs := (Console.served_of_put h).sent_of_ok rfl
    simp [Except.mapError, hs]

theorem sent_inputCell (m : Machine) : m.inputCell.2.console.sent = m.console.sent := by
  rcases inputCell_cases m with ⟨e, c, hf, h⟩ | ⟨c, hf, -, h⟩ | ⟨c, answer, d, hf, -, hr, h⟩
  · rw [h]
    exact (Console.served_of_flush hf).sent_of_error e rfl
  · rw [h]
    simpa using (Console.served_of_flush hf).sent_of_ok rfl
  · have hd := sent_awaitRead c m.heeds
    rw [hr] at hd
    rw [h]
    exact hd.trans (by simpa using (Console.served_of_flush hf).sent_of_ok rfl)

theorem sent_flush (m : Machine) : m.flush.2.console.sent = m.console.sent := by
  unfold flush
  rcases h : m.console.flush with ⟨e | _, c⟩
  · exact (Console.served_of_flush h).sent_of_error e rfl
  · simpa using (Console.served_of_flush h).sent_of_ok rfl

/-- Carrying out an instruction adds the current cell to the bytes printed, if it is a `.` that
does not fail. -/
theorem sent_execute (op : Opcode) (m : Machine) :
    (m.execute op).2.console.sent =
      m.console.sent ++
        if op = .output ∧ (m.execute op).1 = .ok () then #[m.tape.read] else #[] := by
  by_cases ho : op = .output
  · subst ho
    simpa [execute] using sent_outputCell m
  · have hsent : (m.execute op).2.console.sent = m.console.sent := by
      by_cases hi : op = .input
      · subst hi
        exact sent_inputCell m
      · rw [console_execute ho hi]
    simp [ho, hsent]

/-- **A step adds to the bytes printed** the current cell, if it carries out a `.` without an
error, and nothing otherwise. -/
theorem sent_step (m : Machine) :
    m.step.2.console.sent = m.console.sent ++ if m.prints then #[m.tape.read] else #[] := by
  rcases step_cases m with ⟨-, h⟩ | ⟨-, -, h⟩ | ⟨b, -, hb, h⟩
  · simp [prints, h]
  · simp [prints, h]
  · -- the step succeeds if its instruction does
    have hop : m.program.opAt? m.ip = some (.ofByte b) := Program.opAt?_eq_some_iff.2 ⟨b, hb, rfl⟩
    have hprints : m.prints = true ↔
        Opcode.ofByte b = .output ∧ (m.execute (.ofByte b)).1 = .ok () := by
      unfold prints
      rw [hop, h]
      cases (m.execute (.ofByte b)).1 <;> simp [Except.map]
    rw [h, sent_execute]
    simp only [hprints]

theorem flatMap_ite_eq_map_filter {α β : Type} (p : α → Bool) (f : α → β) (l : List α) :
    l.flatMap (fun a => if p a then [f a] else []) = (l.filter p).map f := by
  induction l with
  | nil => rfl
  | cons a l ih => cases h : p a <;> simp [h, ih]

theorem printed_step (m : Machine) :
    m.step.2.console.sent.toList =
      m.console.sent.toList ++ if m.prints then [m.tape.read] else [] := by
  rw [sent_step]
  cases m.prints <;> simp

theorem printed_flush (m : Machine) : m.flush.2.console.sent.toList = m.console.sent.toList := by
  rw [sent_flush]

/-- The bytes printed after a session are those before it and those that its steps print. -/
theorem sent_performAll {actions : List Action} {answers : List Answer}
    (h : m.performAll fuel actions = some (answers, last)) :
    last.console.sent.toList =
      m.console.sent.toList ++ ((m.trail fuel actions).filter prints).map (·.tape.read) := by
  rw [← flatMap_ite_eq_map_filter]
  exact log_performAll (fun m => m.console.sent.toList) _ printed_step printed_flush
    (fun _ => rfl) h

/-- The bytes printed when a step of a session begins are those before the session and those
that its earlier steps print. -/
theorem sent_trail {actions : List Action} {before later : List Machine} {mid : Machine}
    (h : m.trail fuel actions = before ++ mid :: later) :
    mid.console.sent.toList =
      m.console.sent.toList ++ (before.filter prints).map (·.tape.read) := by
  rw [← flatMap_ite_eq_map_filter]
  exact log_trail (fun m => m.console.sent.toList) _ printed_step printed_flush (fun _ => rfl) h

theorem sent_make (source : Source) (sink : Sink) (capacity : Option Nat) :
    (Console.make source sink capacity).sent = sink.accepted := by
  cases capacity <;> simp [Console.make, Console.sent, Console.pending, Buffer.empty]

/-- **No byte of output is lost, doubled, moved or made up**, by any sink, in any session: what
the sink has accepted followed by what waits in the buffer is, behind what the sink had
accepted at first, the current cell at each `.` whose step succeeded, in order. -/
theorem accepted_append_pending (program : Program) (tape : Tape) (source : Source) (sink : Sink)
    (capacity : Option Nat) (heeds : Bool) (fuel : Nat) (actions : List Action)
    {answers : List Answer} {last : Machine}
    (h : (start program tape (.make source sink capacity) heeds).performAll fuel actions =
      some (answers, last)) :
    last.console.sink.accepted.toList ++ last.console.pending.toList =
      sink.accepted.toList ++
        (((start program tape (.make source sink capacity) heeds).trail fuel actions).filter
          prints).map (·.tape.read) := by
  have hsent := sent_performAll h
  have hfirst : (start program tape (.make source sink capacity) heeds).console =
      .make source sink capacity := rfl
  rw [hfirst, sent_make] at hsent
  rw [← hsent, Console.sent, Array.toList_append]

/-- Three bytes meet a buffer of two; the pipe breaks when the drain has passed on the first.
The third `.` fails and its byte is dropped, the second byte is passed on by the closing flush,
and a second run goes on with the fourth. -/
theorem accepted_append_pending_of_broken_pipe :
    ∃ answers last,
      (start (.ofString "+.+.+.+.") (.blank 1)
        (.make (.ofBytes []) ⟨[.acceptAtMost 1, .fail (.system 32)], [], none, #[]⟩ (some 2))
        true).performAll 9 [.run, .run] = some (answers, last) ∧
      last.console.sink.accepted.toList ++ last.console.pending.toList = [1, 2, 4] := by
  have hsome : ((start (.ofString "+.+.+.+.") (.blank 1)
      (.make (.ofBytes []) ⟨[.acceptAtMost 1, .fail (.system 32)], [], none, #[]⟩ (some 2))
      true).performAll 9 [.run, .run]).isSome = true := by cbv
  obtain ⟨⟨answers, last⟩, h⟩ := Option.isSome_iff_exists.1 hsome
  refine ⟨answers, last, h, ?_⟩
  rw [accepted_append_pending _ _ _ _ _ _ _ _ h]
  cbv

end Machine

end Brainfuck
