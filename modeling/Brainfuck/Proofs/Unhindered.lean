import Brainfuck.Proofs.IdealOutput

/-!
# Runs that the output does not hinder

A run whose result is no output error has carried out every `.` that it came to. So what it has
printed is the current cell at each of them, and all of it has reached the sink once the buffer
is empty.

* `Machine.printed`: the current cell at each `.` of a run.
* `Machine.run_unhindered`: a run on a console of which no call fails ends in no output error.
* `Machine.accepted_of_run`: what the sink has accepted at the end of a run.
* `Machine.run_of_works`, `Machine.run_of_refuses`, `Machine.fails_iff_of_refuses`: a sink that
  works, and one that refuses every write.
-/

namespace Brainfuck

namespace Sink

/-- Every write fails or accepts nothing. Flushes do not fail: there is nothing to pass on. -/
structure RefusesWrites (s : Sink) : Prop where
  writes : ∀ item ∈ s.writes, (∃ e, item.outcome = .fail e) ∨ item.outcome = .acceptAtMost 0
  flushes : s.NeverFailsFlush
  refusal : s.refusal ≠ none

variable {s : Sink}

/-- What refuses every write accepts nothing. -/
theorem RefusesWrites.write (h : s.RefusesWrites) (bytes : Array UInt8) :
    (s.write bytes).2.2.accepted = s.accepted ∧ (s.write bytes).2.2.RefusesWrites := by
  have htake (taken : Array UInt8) : (s.take taken).RefusesWrites :=
    ⟨fun item hm => h.writes item (List.mem_of_mem_tail hm), h.flushes, h.refusal⟩
  have hnext : (∃ e, s.nextWrite.outcome = .fail e) ∨ s.nextWrite.outcome = .acceptAtMost 0 := by
    rcases s.nextWrite_cases with hitem | ⟨hnone, -⟩ | ⟨r, -, hitem⟩
    · exact h.writes s.nextWrite hitem
    · exact absurd hnone h.refusal
    · exact .inl ⟨r.error, by rw [hitem]; rfl⟩
  unfold Sink.write
  rcases hnext with ⟨e, hitem⟩ | hitem <;> rw [hitem]
  · exact ⟨by simp [Sink.take], htake _⟩
  · exact ⟨by simp [Sink.take], htake _⟩

theorem RefusesWrites.flush (h : s.RefusesWrites) : s.flush.2.2.RefusesWrites := by
  have hflushes := h.flushes.flush.2
  rw [sink_flush] at hflushes ⊢
  exact ⟨h.writes, hflushes, h.refusal⟩

end Sink

namespace Console

variable {c : Console}

theorem sink_awaitRead (c : Console) (heeds : Bool) :
    (Machine.awaitRead c heeds).2.sink = c.sink := by
  cases heeds <;> simp [Machine.awaitRead, read, await]

theorem pending_awaitRead (c : Console) (heeds : Bool) :
    (Machine.awaitRead c heeds).2.pending = c.pending := by
  cases heeds <;> simp [Machine.awaitRead, read, await, pending]

/-- A sink that refuses every write has accepted nothing more. -/
theorem outputInvariant_refuses (accepted : Array UInt8) :
    OutputInvariant fun c => c.sink.RefusesWrites ∧ c.sink.accepted = accepted where
  buffer _ _ h := h
  offer c bytes h := by
    obtain ⟨hacc, hrefuses⟩ := h.1.write bytes
    rw [sink_offer]
    exact ⟨hrefuses, hacc.trans h.2⟩
  flushSink c h := by
    simp only [flushSink, sink_cancelIf]
    exact ⟨h.1.flush, (Sink.accepted_flush _).trans h.2⟩

/-- With nothing held back, there is nothing to drain. -/
theorem drain_of_pending (h : c.pending = #[]) : c.drain = (.ok (), c) := by
  unfold drain
  split
  · rfl
  · rename_i b hb
    have hempty : b.pending = #[] := by simpa [pending, hb] using h
    rw [hempty, writeAll_of_empty rfl]
    obtain ⟨source, sink, buffer, flag, calls⟩ := c
    obtain ⟨capacity, bytes⟩ := b
    cases hb
    cases hempty
    rfl

/-- A property of consoles by which no flush fails, and which flushes and reads keep. -/
structure Unhindered (heeds : Bool) (P : Console → Prop) : Prop where
  flush : ∀ c, P c → c.flush.1 = .ok () ∧ P c.flush.2
  read : ∀ c, P c → P (Machine.awaitRead c heeds).2

theorem unhindered_works (heeds : Bool) : Unhindered heeds fun c => c.sink.Works where
  flush c h := ⟨ok_of_flush h, (served_of_flush (Prod.eta c.flush).symm).only.works h⟩
  read c h := by rwa [sink_awaitRead]

/-- Where nothing is held back, a flush needs no write. -/
theorem unhindered_idle (heeds : Bool) :
    Unhindered heeds fun c => c.pending = #[] ∧ c.sink.NeverFailsFlush where
  flush c h := by
    obtain ⟨hok, hflushes⟩ := h.2.flush
    rw [flush, drain_of_pending h.1]
    exact ⟨hok, by simpa [flushSink, pending] using h.1, by simpa [flushSink] using hflushes⟩
  read c h := by rwa [sink_awaitRead, pending_awaitRead]

end Console

namespace Machine

variable {m last after : Machine} {fuel : Nat} {heeds : Bool} {result : Except RunError Unit}
  {P : Console → Prop}

/-- Does the next step carry out a `.`, whether that fails or not? -/
def outputs (m : Machine) : Bool := !m.isCancelled && m.program.opAt? m.ip == some .output

/-- The bytes that a run prints: the current cell at each `.` that it carries out. -/
def printed (fuel : Nat) (m : Machine) : List UInt8 :=
  ((m.stepTrail fuel).filter outputs).map (·.tape.read)

/-- A `.` does not fail but by an output error. -/
theorem outputs_eq_prints (h : ∀ ip e, m.step.1 ≠ .error (.output ip e)) :
    m.outputs = m.prints := by
  unfold outputs prints
  rcases step_cases m with ⟨hc, hs⟩ | ⟨-, hb, hs⟩ | ⟨b, hc, hb, hs⟩
  · simp [hc, hs]
  · simp [Program.opAt?, hb]
  · have hop : m.program.opAt? m.ip = some (.ofByte b) := Program.opAt?_eq_some_iff.2 ⟨b, hb, rfl⟩
    rw [hop, hc]
    by_cases ho : Opcode.ofByte b = .output
    · -- the byte was put out, since the error would be one of output
      rw [ho, execute, outputCell_eq] at hs
      cases hput : (m.console.put m.tape.read).1 with
      | error e =>
        rw [hput] at hs
        exact absurd (congrArg Prod.fst hs) (h m.ip e)
      | ok _ =>
        rw [hput] at hs
        simp [ho, hs, Except.mapError, Except.map]
    · simp [ho]

/-- What steps answer before the last, and the last. -/
theorem step_of_mem_stepTrail (hs : m.steps fuel = some (result, last)) :
    ∀ mid ∈ m.stepTrail fuel,
      mid.step.1 = .ok .next ∨ mid.step.1 = result.map fun _ => .halted := by
  induction fuel generalizing m with
  | zero => simp [steps] at hs
  | succ fuel ih =>
    intro mid hmid
    rcases heq : m.step with ⟨e | (_ | _), next⟩
    · rw [steps_of_error heq] at hs
      cases hs
      simp only [stepTrail, heq, List.mem_singleton] at hmid
      subst hmid
      exact .inr (congrArg Prod.fst heq)
    · rw [steps_of_next heq] at hs
      simp only [stepTrail, heq] at hmid
      rcases List.mem_cons.1 hmid with rfl | hmid
      · exact .inl (congrArg Prod.fst heq)
      · exact ih hs mid hmid
    · rw [steps_of_halted heq] at hs
      cases hs
      simp only [stepTrail, heq, List.mem_singleton] at hmid
      subst hmid
      exact .inr (congrArg Prod.fst heq)

/-- **What the sink has accepted** at the end of a run that met no output error, once nothing is
held back: what was sent before, and what the run printed. -/
theorem accepted_of_run (hrun : m.run fuel = some (result, after))
    (hr : ∀ ip e, result ≠ .error (.output ip e)) (hpending : after.console.pending = #[]) :
    after.console.sink.accepted.toList = m.console.sent.toList ++ m.printed fuel := by
  obtain ⟨result', last, hs, hf⟩ := run_eq_some_iff.1 hrun
  obtain rfl : result' = result := result_of_finish hf hr
  have hprints : (m.stepTrail fuel).filter outputs = (m.stepTrail fuel).filter prints := by
    refine List.filter_congr fun mid hmid => outputs_eq_prints fun ip e heq => ?_
    rcases step_of_mem_stepTrail hs mid hmid with hnext | hlast
    · rw [hnext] at heq
      cases heq
    · rw [hlast] at heq
      cases result' with
      | ok _ => cases heq
      | error e' =>
        cases heq
        exact hr ip e rfl
  have hsent : after.console.sent = after.console.sink.accepted := by
    rw [Console.sent, hpending, Array.append_empty]
  -- the run as a session of one action
  have hsession : m.performAll fuel [.run] = some ([.ran result'], after) := by
    simp [performAll, perform, hrun]
  have htrail : m.trail fuel [.run] = m.stepTrail fuel := by
    simp [trail, actionTrail, perform, hrun]
  rw [← hsent, sent_performAll hsession, htrail, printed, hprints]

/-- A step meets no output error on a console of which no flush fails, and no `.` if it is one. -/
theorem step_unhindered (hP : Console.Unhindered m.heeds P) (h : P m.console)
    (hput : m.outputs = true → ∀ b, (m.console.put b).1 = .ok () ∧ P (m.console.put b).2) :
    (∀ ip e, m.step.1 ≠ .error (.output ip e)) ∧ P m.step.2.console := by
  rcases step_cases m with ⟨-, hs⟩ | ⟨-, -, hs⟩ | ⟨b, hc, hb, hs⟩ <;> rw [hs]
  · exact ⟨by simp, h⟩
  · exact ⟨by simp, h⟩
  have hop : m.program.opAt? m.ip = some (.ofByte b) := Program.opAt?_eq_some_iff.2 ⟨b, hb, rfl⟩
  by_cases ho : Opcode.ofByte b = .output
  · obtain ⟨hok, hafter⟩ := hput (by simp [outputs, hc, hop, ho]) m.tape.read
    rw [ho, execute, outputCell_eq, hok]
    exact ⟨by simp [Except.mapError, Except.map], hafter⟩
  by_cases hi : Opcode.ofByte b = .input
  · obtain ⟨hok, hafter⟩ := hP.flush m.console h
    rw [hi, execute]
    rcases inputCell_cases m with
      ⟨e, c, hf, heq⟩ | ⟨c, hf, -, heq⟩ | ⟨c, answer, d, hf, -, hr, heq⟩ <;>
      rw [hf] at hok hafter <;> rw [heq]
    · cases hok
    · exact ⟨by simp [Except.map], hafter⟩
    · have hd := hP.read c hafter
      rw [hr] at hd
      exact ⟨by simp [Except.map], hd⟩
  · refine ⟨fun ip e heq => ?_, ?_⟩
    · have hne := execute_ne_output ho hi m ip e
      cases he : (m.execute (.ofByte b)).1 <;> rw [he] at heq hne <;> cases heq
      exact hne rfl
    · rw [console_execute ho hi]
      exact h

theorem steps_unhindered (hP : Console.Unhindered heeds P) (hheeds : m.heeds = heeds)
    (h : P m.console)
    (hput : ∀ mid ∈ m.stepTrail fuel, mid.outputs = true → P mid.console →
      ∀ b, (mid.console.put b).1 = .ok () ∧ P (mid.console.put b).2)
    (hs : m.steps fuel = some (result, last)) :
    (∀ ip e, result ≠ .error (.output ip e)) ∧ P last.console := by
  induction fuel generalizing m with
  | zero => simp [steps] at hs
  | succ fuel ih =>
    have hmem : m ∈ m.stepTrail (fuel + 1) := by
      simp only [stepTrail]
      split <;> simp
    obtain ⟨hne, hafter⟩ := step_unhindered (hheeds ▸ hP) h fun ho => hput m hmem ho h
    rcases heq : m.step with ⟨e | (_ | _), next⟩ <;> rw [heq] at hne hafter
    · rw [steps_of_error heq] at hs
      cases hs
      refine ⟨fun ip cause hout => ?_, hafter⟩
      cases hout
      exact hne ip cause rfl
    · rw [steps_of_next heq] at hs
      have hnext : next.heeds = heeds := by rw [← hheeds, ← heeds_step m, heq]
      refine ih hnext hafter (fun mid hmid => hput mid ?_) hs
      simp [stepTrail, heq, hmid]
    · rw [steps_of_halted heq] at hs
      cases hs
      exact ⟨by simp, hafter⟩

/-- **A run that nothing hinders** meets no output error, and ends with an empty buffer. -/
theorem run_unhindered (hP : Console.Unhindered heeds P) (hheeds : m.heeds = heeds)
    (h : P m.console)
    (hput : ∀ mid ∈ m.stepTrail fuel, mid.outputs = true → P mid.console →
      ∀ b, (mid.console.put b).1 = .ok () ∧ P (mid.console.put b).2)
    (hrun : m.run fuel = some (result, after)) :
    (∀ ip e, result ≠ .error (.output ip e)) ∧ after.console.pending = #[] := by
  obtain ⟨result', last, hs, hf⟩ := run_eq_some_iff.1 hrun
  obtain ⟨hne, hlast⟩ := steps_unhindered hP hheeds h hput hs
  have hok := (hP.flush last.console hlast).1
  rcases finish_cases result' last with ⟨c, hflush, heq⟩ | ⟨e, c, hflush, -⟩
  · rw [hf] at heq
    cases heq
    exact ⟨hne, Console.pending_of_flush hflush⟩
  · rw [hflush] at hok
    cases hok

/-- **A run into a sink that works** meets no output error, and the sink has accepted all that it
printed, however the run ends. -/
theorem run_of_works (hworks : m.console.sink.Works)
    (hrun : m.run fuel = some (result, after)) :
    (∀ ip e, result ≠ .error (.output ip e)) ∧ after.console.pending = #[] ∧
      after.console.sink.accepted.toList = m.console.sent.toList ++ m.printed fuel := by
  obtain ⟨hne, hpending⟩ := run_unhindered (Console.unhindered_works m.heeds) rfl hworks
    (fun mid _ _ h b => ⟨Console.ok_of_put h,
      (Console.served_of_put (Prod.eta (mid.console.put b)).symm).only.works h⟩) hrun
  exact ⟨hne, hpending, accepted_of_run hrun hne hpending⟩

/-- **A run that ends well** has passed on to the sink all that it printed. -/
theorem run_of_ok (hrun : m.run fuel = some (.ok (), after)) :
    after.console.pending = #[] ∧
      after.console.sink.accepted.toList = m.console.sent.toList ++ m.printed fuel := by
  obtain ⟨result, last, -, hf⟩ := run_eq_some_iff.1 hrun
  have hpending := pending_of_finish hf
  exact ⟨hpending, accepted_of_run hrun (by simp) hpending⟩

/-- **A run into a sink that refuses every write** leaves it as it was, and meets an output error
only if it carries out a `.`. -/
theorem run_of_refuses (hrefuses : m.console.sink.RefusesWrites)
    (hpending : m.console.pending = #[]) (hrun : m.run fuel = some (result, after)) :
    (after.console.sink.RefusesWrites ∧ after.console.sink.accepted = m.console.sink.accepted) ∧
      (m.printed fuel = [] → ∀ ip e, result ≠ .error (.output ip e)) := by
  constructor
  · have hinvariant : Invariant fun m' => m'.heeds = m.heeds ∧
        m'.console.sink.RefusesWrites ∧ m'.console.sink.accepted = m.console.sink.accepted :=
      .of_console (Console.outputInvariant_refuses m.console.sink.accepted)
        (fun c h _ => by rwa [Console.sink_awaitRead]) fun _ h => h
    have hperform : m.perform fuel .run = some (.ran result, after) := by
      rw [perform, hrun]
      rfl
    exact (hinvariant.perform ⟨rfl, hrefuses, rfl⟩ hperform).2
  · intro hnone
    refine (run_unhindered (Console.unhindered_idle m.heeds) rfl ⟨hpending, hrefuses.flushes⟩
      (fun mid hmid ho => ?_) hrun).1
    -- no step of the run is a `.`
    rw [printed, List.map_eq_nil_iff, List.filter_eq_nil_iff] at hnone
    exact absurd ho (hnone mid hmid)

/-- **What a sink that refuses every write makes of a run** that is not interrupted: it fails just
where it carries out a `.`, or fails at an edge of the tape or at a bracket. -/
theorem fails_iff_of_refuses (hrefuses : m.console.sink.RefusesWrites)
    (hsent : m.console.sent = #[]) (hrun : m.run fuel = some (result, after))
    (hne : result ≠ .error .interrupted) :
    result ≠ .ok () ↔ m.printed fuel ≠ [] ∨
      (∃ ip cursor op, result = .error (.outOfBounds ip cursor op)) ∨
      ∃ ip side, result = .error (.unmatchedBracket ip side) := by
  obtain ⟨hnone, hpending⟩ := Array.append_eq_empty_iff.1 hsent
  obtain ⟨⟨-, haccepted⟩, hquiet⟩ := run_of_refuses hrefuses hpending hrun
  constructor
  · intro hbad
    cases result with
    | ok _ => exact absurd rfl hbad
    | error e =>
      cases e with
      | outOfBounds ip cursor op => exact .inr (.inl ⟨ip, cursor, op, rfl⟩)
      | unmatchedBracket ip side => exact .inr (.inr ⟨ip, side, rfl⟩)
      | interrupted => exact absurd rfl hne
      | output ip cause => exact .inl fun hprinted => hquiet hprinted ip cause rfl
  · rintro (hprinted | ⟨ip, cursor, op, rfl⟩ | ⟨ip, side, rfl⟩)
    · -- a run that ends well would have passed the bytes on
      rintro rfl
      have hall := (run_of_ok hrun).2
      rw [haccepted, hnone, hsent] at hall
      exact hprinted hall.symm
    · simp
    · simp

end Machine

end Brainfuck
