import Brainfuck.Proofs.Conservation

/-!
# Ideal output

A run whose output is buffered, cut short, interrupted or refused is compared with the ideal run
of the same program on the same tape and input, whose output goes straight to a sink that
accepts everything. As long as no output error is reported the two runs go through the same
states, and the sink has received a prefix of the ideal output.

* `Machine.step_agrees`: one step keeps a machine and its ideal companion together.
* `Machine.after_agrees`, `Machine.steps_agree`: so do any number of steps.
* `Machine.ideal_returns`: the ideal run returns whatever a run returns that is no output error.
* `Machine.run_agrees_with_ideal`: what this means for whole runs.
-/

namespace Brainfuck

namespace Console

variable {c c' ideal ideal' : Console}

/-- A console and an ideal one that have seen the same run so far. -/
structure Agrees (c ideal : Console) : Prop where
  source : ideal.source = c.source
  flag : ideal.flag = c.flag
  quiet : c.sink.NeverCancels
  obliging : ideal.sink.Obliging
  unbuffered : ideal.buffer = none
  sent : ideal.sent = c.sent

theorem pending_of_unbuffered (h : c.buffer = none) : c.pending = #[] := by
  simp [pending, h]

/-- The ideal sink holds all that has been printed. -/
theorem Agrees.accepted (h : c.Agrees ideal) : ideal.sink.accepted = c.sent := by
  rw [← h.sent, Console.sent, pending_of_unbuffered h.unbuffered, Array.append_empty]

/-- The same output on both sides. -/
theorem Agrees.served (h : c.Agrees ideal) {added : Array UInt8}
    (hs : c.Served added (.ok ()) c') (hs' : ideal.Served added (.ok ()) ideal') :
    c'.Agrees ideal' where
  source := by rw [hs'.only.source, hs.only.source, h.source]
  flag := by
    obtain ⟨-, hf⟩ := hs.only.quiet h.quiet
    obtain ⟨-, hf'⟩ := hs'.only.quiet h.obliging.neverCancels
    rw [hf, hf', h.flag]
  quiet := (hs.only.quiet h.quiet).1
  obliging := hs'.only.obliging h.obliging
  unbuffered := hs'.unbuffered h.unbuffered
  sent := by rw [hs.sent_of_ok rfl, hs'.sent_of_ok rfl, h.sent]

theorem Agrees.put (h : c.Agrees ideal) {byte : UInt8} (hp : c.put byte = (.ok (), c')) :
    ∃ ideal', ideal.put byte = (.ok (), ideal') ∧ c'.Agrees ideal' := by
  have hp' : ideal.put byte = (.ok (), (ideal.put byte).2) :=
    Prod.ext (ok_of_put h.obliging.works) rfl
  exact ⟨_, hp', h.served (served_of_put hp) (served_of_put hp')⟩

theorem Agrees.flush (h : c.Agrees ideal) (hf : c.flush = (.ok (), c')) :
    ∃ ideal', ideal.flush = (.ok (), ideal') ∧ c'.Agrees ideal' := by
  have hf' : ideal.flush = (.ok (), ideal.flush.2) := Prod.ext (ok_of_flush h.obliging.works) rfl
  exact ⟨_, hf', h.served (served_of_flush hf) (served_of_flush hf')⟩

theorem Agrees.await (h : c.Agrees ideal) (waits : Bool) :
    (c.await waits).Agrees (ideal.await waits) :=
  ⟨h.source, by simp [Console.await, h.flag], h.quiet, h.obliging, h.unbuffered, h.sent⟩

theorem Agrees.read (h : c.Agrees ideal) :
    ideal.read.1 = c.read.1 ∧ c.read.2.Agrees ideal.read.2 := by
  have hanswer : ideal.read.1 = c.read.1 := by simp [Console.read, h.source]
  refine ⟨hanswer, ?_, ?_, ?_, ?_, ?_, ?_⟩
  · simp [Console.read, h.source]
  · rcases hr : c.source.read with ⟨answer, cancels, source⟩
    cases cancels <;> simp [Console.read, h.source, hr, cancelIf, cancel, h.flag]
  · simpa [Console.read] using h.quiet
  · simpa [Console.read] using h.obliging
  · simpa [Console.read] using h.unbuffered
  · rw [sent_read, sent_read, h.sent]

end Console

namespace Machine

open Console (Agrees)

variable {m last : Machine} {ideal : Console}

theorem awaitRead_agrees {c : Console} (h : c.Agrees ideal) (heeds : Bool) :
    (awaitRead ideal heeds).1 = (awaitRead c heeds).1 ∧
      (awaitRead c heeds).2.Agrees (awaitRead ideal heeds).2 := by
  cases heeds
  · exact h.read
  · obtain ⟨hanswer, hr⟩ := (h.await true).read
    exact ⟨hanswer, hr.await false⟩

/-- Carrying out one instruction beside an ideal console, without an output error. -/
theorem execute_agrees (h : m.console.Agrees ideal) (op : Opcode)
    (hr : ∀ ip e, (m.execute op).1 ≠ .error (.output ip e)) :
    ∃ ideal', (m.withConsole ideal).execute op =
        ((m.execute op).1, (m.execute op).2.withConsole ideal') ∧
      (m.execute op).2.console.Agrees ideal' := by
  by_cases ho : op = .output
  · subst ho
    simp only [execute, outputCell_eq] at hr ⊢
    rcases hp : m.console.put m.tape.read with ⟨e | _, c⟩
    · exact absurd (by simp [hp, Except.mapError]) (hr m.ip e)
    · obtain ⟨ideal', hp', ha⟩ := h.put hp
      exact ⟨ideal', by simp [withConsole, next, hp', Except.mapError], ha⟩
  by_cases hi : op = .input
  · subst hi
    simp only [execute] at hr ⊢
    rcases inputCell_cases m with
      ⟨e, c, -, heq⟩ | ⟨c, hf, hq, heq⟩ | ⟨c, answer, d, hf, hq, hd, heq⟩
    · exact absurd (by rw [heq]) (hr m.ip e)
    · -- a cancelled machine does not begin to wait, on either side
      obtain ⟨ideal', hf', ha⟩ := h.flush hf
      have hq' : (m.heeds && ideal'.flag.cancelled) = true := by rw [ha.flag, hq]
      refine ⟨ideal', ?_, ?_⟩
      · rw [heq, inputCell_of_cancelled (m := m.withConsole ideal) hf' hq']
        rfl
      · rw [heq]
        exact ha
    · obtain ⟨ideal', hf', ha⟩ := h.flush hf
      have hq' : (m.heeds && ideal'.flag.cancelled) = false := by rw [ha.flag, hq]
      obtain ⟨hanswer, hd'⟩ := awaitRead_agrees ha m.heeds
      rw [hd] at hanswer hd'
      have hread : awaitRead ideal' m.heeds = (answer, (awaitRead ideal' m.heeds).2) :=
        Prod.ext hanswer rfl
      refine ⟨(awaitRead ideal' m.heeds).2, ?_, ?_⟩
      · rw [heq, inputCell_of_read (m := m.withConsole ideal) hf' hq' hread]
        rfl
      · rw [heq]
        exact hd'
  · refine ⟨ideal, execute_withConsole ho hi m ideal, ?_⟩
    rw [console_execute ho hi]
    exact h

/-- **One step beside an ideal console**: unless it reports an output error, the step answers
the same there and moves the machine alike. -/
theorem step_agrees (h : m.console.Agrees ideal)
    (hr : ∀ ip e, m.step.1 ≠ .error (.output ip e)) :
    ∃ ideal', (m.withConsole ideal).step = (m.step.1, m.step.2.withConsole ideal') ∧
      m.step.2.console.Agrees ideal' := by
  have hcancel : (m.withConsole ideal).isCancelled = m.isCancelled := by
    simp [isCancelled, withConsole, h.flag]
  rcases step_cases m with ⟨hc, hs⟩ | ⟨hc, hb, hs⟩ | ⟨b, hc, hb, hs⟩
  · rw [hs, step_of_cancelled (hcancel.trans hc)]
    exact ⟨ideal, rfl, h⟩
  · rw [hs, step_of_end (hcancel.trans hc) hb]
    exact ⟨ideal, rfl, h⟩
  · rw [hs] at hr ⊢
    have hr' : ∀ ip e, (m.execute (.ofByte b)).1 ≠ .error (.output ip e) := by
      intro ip e he
      exact hr ip e (by simp [he, Except.map])
    obtain ⟨ideal', heq, ha⟩ := execute_agrees h (.ofByte b) hr'
    refine ⟨ideal', ?_, ha⟩
    rw [step_of_byte (hcancel.trans hc) hb, heq]

theorem after_agrees (h : m.console.Agrees ideal) {n : Nat}
    (hr : ∀ k < n, ∀ ip e, (m.after k).step.1 ≠ .error (.output ip e)) :
    ∃ ideal', (m.withConsole ideal).after n = (m.after n).withConsole ideal' ∧
      (m.after n).console.Agrees ideal' := by
  induction n with
  | zero => exact ⟨ideal, rfl, h⟩
  | succ n ih =>
    obtain ⟨ideal', heq, ha⟩ := ih fun k hk => hr k (by omega)
    obtain ⟨ideal'', hstep, ha'⟩ := step_agrees ha (hr n (by omega))
    exact ⟨ideal'', by simp [after, heq, hstep], ha'⟩

theorem steps_agree (h : m.console.Agrees ideal) {fuel : Nat} {result : Except RunError Unit}
    (hs : m.steps fuel = some (result, last)) (hr : ∀ ip e, result ≠ .error (.output ip e)) :
    ∃ ideal', (m.withConsole ideal).steps fuel = some (result, last.withConsole ideal') ∧
      last.console.Agrees ideal' := by
  induction fuel generalizing m ideal with
  | zero => simp [steps] at hs
  | succ fuel ih =>
    have hstep := step_agrees h
    rcases heq : m.step with ⟨e | (_ | _), mid⟩
    · -- the error of the last step is the result, which is no output error
      rw [steps_of_error heq] at hs
      cases hs
      rw [heq] at hstep
      obtain ⟨ideal', heq', ha⟩ := hstep fun ip cause he => hr ip cause (by cases he; rfl)
      exact ⟨ideal', steps_of_error heq' fuel, ha⟩
    · rw [steps_of_next heq] at hs
      rw [heq] at hstep
      obtain ⟨ideal', heq', ha⟩ := hstep (by simp)
      obtain ⟨ideal'', hs', ha'⟩ := ih ha hs
      exact ⟨ideal'', by rw [steps_of_next heq']; exact hs', ha'⟩
    · rw [steps_of_halted heq] at hs
      cases hs
      rw [heq] at hstep
      obtain ⟨ideal', heq', ha⟩ := hstep (by simp)
      exact ⟨ideal', steps_of_halted heq' fuel, ha⟩

/-- Steps that are enough for the ideal run are enough for the run. -/
theorem isSome_steps_of_ideal (h : m.console.Agrees ideal) {fuel : Nat}
    (hs : ((m.withConsole ideal).steps fuel).isSome = true) : (m.steps fuel).isSome = true := by
  induction fuel generalizing m ideal with
  | zero => simp [steps] at hs
  | succ fuel ih =>
    rcases heq : m.step with ⟨e | (_ | _), mid⟩
    · simp [steps_of_error heq]
    · obtain ⟨ideal', heq', ha⟩ := step_agrees h (by simp [heq])
      rw [heq] at heq' ha
      rw [steps_of_next heq'] at hs
      rw [steps_of_next heq]
      exact ih ha hs
    · simp [steps_of_halted heq]

/-- A flush touches nothing but the console. -/
theorem flush_withConsole (m : Machine) (c : Console) :
    m.flush.2.withConsole c = m.withConsole c := by
  unfold flush
  rcases m.console.flush with ⟨_ | _, d⟩ <;> rfl

/-- The closing flush of an ideal run changes no result. -/
theorem finish_ideal (h : last.console.Agrees ideal) (result : Except RunError Unit) :
    ∃ ideal', (last.withConsole ideal).finish result = (result, last.withConsole ideal') ∧
      ideal'.sink.accepted = last.console.sent := by
  have hok : ideal.flush.1 = .ok () := Console.ok_of_flush h.obliging.works
  rcases finish_cases result (last.withConsole ideal) with ⟨c, hf, heq⟩ | ⟨e, c, hf, -⟩
  · refine ⟨c, heq, ?_⟩
    have hs := Console.served_of_flush hf
    have hsent := hs.sent_of_ok rfl
    -- without a buffer all that was sent has been accepted
    rw [Console.sent, Console.pending_of_unbuffered (hs.unbuffered h.unbuffered),
      Array.append_empty, Array.append_empty] at hsent
    rw [hsent, console_withConsole, h.sent]
  · rw [console_withConsole] at hf
    rw [hf] at hok
    cases hok

theorem pending_of_finish {result : Except RunError Unit} {after : Machine}
    (h : last.finish result = (.ok (), after)) : after.console.pending = #[] := by
  rcases finish_cases result last with ⟨c, hf, heq⟩ | ⟨e, c, -, heq⟩
  · rw [h] at heq
    cases heq
    exact Console.pending_of_flush hf
  · rw [h] at heq
    cases result <;> simp [Except.bind] at heq

/-- A result that is no output error was there before the closing flush. -/
theorem result_of_finish {result result' : Except RunError Unit} {after : Machine}
    (h : last.finish result' = (result, after)) (hr : ∀ ip e, result ≠ .error (.output ip e)) :
    result' = result := by
  rcases finish_cases result' last with ⟨c, -, heq⟩ | ⟨e, c, -, heq⟩
  · rw [h] at heq
    exact (Prod.mk.inj heq).1.symm
  · rw [h] at heq
    obtain ⟨heq, -⟩ := Prod.mk.inj heq
    cases result' with
    | error e' => exact heq.symm
    | ok _ => exact absurd heq (hr last.ip e)

/-- **The ideal run returns** whatever a run returns that is no output error, and the ideal sink
then holds all that the run has printed. -/
theorem ideal_returns (h : m.console.Agrees ideal) {result : Except RunError Unit}
    {after : Machine} (hret : m.Returns result after)
    (hr : ∀ ip e, result ≠ .error (.output ip e)) :
    ∃ ideal', (m.withConsole ideal).Returns result (after.withConsole ideal') ∧
      ideal'.sink.accepted = after.console.sent := by
  obtain ⟨fuel, result', last, hs, hf⟩ := returns_iff.1 hret
  obtain rfl : result' = result := result_of_finish hf hr
  have hafter : after = last.flush.2 := by rw [← finish_snd result' last, hf]
  obtain ⟨ideal', hs', ha⟩ := steps_agree h hs hr
  obtain ⟨ideal'', hfin, hacc⟩ := finish_ideal ha result'
  refine ⟨ideal'', returns_iff.2 ⟨fuel, result', _, hs', ?_⟩, ?_⟩
  · rw [hfin, hafter, flush_withConsole]
  · rw [hacc, hafter, sent_flush]

theorem execute_ne_output {op : Opcode} (ho : op ≠ .output) (hi : op ≠ .input) (m : Machine)
    (ip : Nat) (e : IoError) : (m.execute op).1 ≠ .error (.output ip e) := by
  rcases execute_cases ho hi m with ⟨_, _, h⟩ | ⟨_, h⟩ | ⟨_, h⟩ <;> simp [h]

/-- An instruction reports an output error only if a call has stood in the way. -/
theorem hindrance_of_execute {op : Opcode} {ip : Nat} {e : IoError}
    (h : (m.execute op).1 = .error (.output ip e)) :
    ∃ call ∈ (m.execute op).2.console.calls, call.isHarmless = false := by
  by_cases ho : op = .output
  · subst ho
    rw [execute, outputCell_eq] at h ⊢
    rcases hp : m.console.put m.tape.read with ⟨cause | _, c⟩
    · exact (Console.served_of_put hp).hindrance cause rfl
    · simp [hp, Except.mapError] at h
  by_cases hi : op = .input
  · subst hi
    rw [execute] at h ⊢
    rcases inputCell_cases m with ⟨cause, c, hf, heq⟩ | ⟨c, -, -, heq⟩ | ⟨c, _, d, -, -, -, heq⟩
    · rw [heq]
      exact (Console.served_of_flush hf).hindrance cause rfl
    · simp [heq] at h
    · simp [heq] at h
  · exact absurd h (execute_ne_output ho hi m ip e)

/-- A step reports an output error only if a call has stood in the way. -/
theorem hindrance_of_step {after : Machine} {ip : Nat} {e : IoError}
    (h : m.step = (.error (.output ip e), after)) :
    ∃ call ∈ after.console.calls, call.isHarmless = false := by
  have hafter : after = m.step.2 := by rw [h]
  rcases step_error_cases (congrArg Prod.fst h) with ⟨-, heq, -⟩ | ⟨-, -, b, -, he, hs⟩
  · cases heq
  · rw [hafter, hs]
    exact hindrance_of_execute he

/-- **A run of which no call stood in the way** returns no output error, and its closing flush
has emptied the buffer. -/
theorem returns_of_harmless {result : Except RunError Unit} {after : Machine}
    (hret : m.Returns result after)
    (hcalls : ∀ call ∈ after.console.calls, call.isHarmless = true) :
    (∀ ip e, result ≠ .error (.output ip e)) ∧ after.console.pending = #[] := by
  obtain ⟨fuel, result', last, hs, hf⟩ := returns_iff.1 hret
  rcases finish_cases result' last with ⟨c, hfl, heq⟩ | ⟨cause, c, hfl, heq⟩
  · rw [hf] at heq
    cases heq
    refine ⟨?_, Console.pending_of_flush hfl⟩
    rintro ip e rfl
    -- the call that stood in the way of the last step is still in the transcript
    obtain ⟨k, -, -, hlast⟩ := exists_last_step hs
    obtain ⟨call, hmem, hbad⟩ := hindrance_of_step (step_of_last_error hlast)
    have hgood := hcalls call ((Console.served_of_flush hfl).only.calls.subset hmem)
    rw [hbad] at hgood
    cases hgood
  · -- the closing flush would have left its mark
    rw [hf] at heq
    cases heq
    obtain ⟨call, hmem, hbad⟩ := (Console.served_of_flush hfl).hindrance cause rfl
    have hgood := hcalls call hmem
    rw [hbad] at hgood
    cases hgood

/-- A run and its ideal companion, before their first step. -/
theorem agrees_start (source : Source) {sink : Sink} (hq : sink.NeverCancels)
    (h0 : sink.accepted = #[]) (capacity : Option Nat) :
    (Console.make source sink capacity).Agrees (.make source .accepting none) := by
  refine ⟨rfl, rfl, hq, Sink.obliging_accepting, rfl, ?_⟩
  cases capacity <;> simp [Console.make, Console.sent, Console.pending, Buffer.empty,
    Sink.accepting, h0]

/-- **Output that is buffered or fails, against ideal output.** A run with any buffer and any
sink that never cancels is compared with the run of the same program, tape and input into a sink
that accepts everything.

After any number of steps of which none reported an output error, both have the same index, tape
and input left, and the sink has accepted a prefix of the ideal output. A run that ends well, at
an edge of the tape or at a bracket without a partner does so in the ideal run too; if it ends
well, the sink holds the ideal output and the buffer nothing. And if every write accepted a
byte or was interrupted, and every flush succeeded, a run returns what the ideal run returns,
which is no output error, with the ideal output in the sink and nothing in the buffer: so what
the sink holds does not depend on the buffer, nor on which writes were short or interrupted. A
run returns at all if the ideal run does. -/
theorem run_agrees_with_ideal (program : Program) (tape : Tape) (source : Source)
    (writes : List WriteItem) (flushes : List FlushItem) (refusal : Option Refusal)
    (capacity : Option Nat) (heeds : Bool)
    (hq : (Sink.mk writes flushes refusal #[]).NeverCancels) :
    let m := start program tape (.make source ⟨writes, flushes, refusal, #[]⟩ capacity) heeds
    let ideal := start program tape (.make source .accepting none) heeds
    (∀ n, (∀ k < n, ∀ ip e, (m.after k).step.1 ≠ .error (.output ip e)) →
      (m.after n).ip = (ideal.after n).ip ∧ (m.after n).tape = (ideal.after n).tape ∧
      (m.after n).console.source = (ideal.after n).console.source ∧
      (m.after n).console.sink.accepted.toList <+:
        (ideal.after n).console.sink.accepted.toList) ∧
    (∀ after, m.Returns (.ok ()) after →
      ∃ after', ideal.Returns (.ok ()) after' ∧
        after.console.sink.accepted = after'.console.sink.accepted ∧
        after.console.pending = #[]) ∧
    (∀ ip cursor op after, m.Returns (.error (.outOfBounds ip cursor op)) after →
      ∃ after', ideal.Returns (.error (.outOfBounds ip cursor op)) after') ∧
    (∀ ip side after, m.Returns (.error (.unmatchedBracket ip side)) after →
      ∃ after', ideal.Returns (.error (.unmatchedBracket ip side)) after') ∧
    (∀ result after, m.Returns result after →
      (∀ call ∈ after.console.calls, call.isHarmless = true) →
      (∀ ip e, result ≠ .error (.output ip e)) ∧ after.console.pending = #[] ∧
      ∃ after', ideal.Returns result after' ∧
        after.console.sink.accepted = after'.console.sink.accepted) ∧
    (∀ result after', ideal.Returns result after' → ∃ result after, m.Returns result after) := by
  intro m ideal
  have hstart : m.console.Agrees ideal.console := agrees_start source hq rfl capacity
  have hideal : m.withConsole ideal.console = ideal := rfl
  refine ⟨?_, ?_, ?_, ?_, ?_, ?_⟩
  · intro n hr
    obtain ⟨c, heq, ha⟩ := after_agrees hstart hr
    rw [← hideal, heq]
    refine ⟨rfl, rfl, ha.source.symm, ?_⟩
    rw [console_withConsole, ha.accepted, Console.sent, Array.toList_append]
    exact List.prefix_append _ _
  · intro after hret
    obtain ⟨c, hret', hacc⟩ := ideal_returns hstart hret (by simp)
    obtain ⟨fuel, result, last, -, hf⟩ := returns_iff.1 hret
    have hpending : after.console.pending = #[] := pending_of_finish hf
    refine ⟨_, hret', ?_, hpending⟩
    rw [console_withConsole, hacc, Console.sent, hpending, Array.append_empty]
  · intro ip cursor op after hret
    obtain ⟨c, hret', -⟩ := ideal_returns hstart hret (by simp)
    exact ⟨_, hret'⟩
  · intro ip side after hret
    obtain ⟨c, hret', -⟩ := ideal_returns hstart hret (by simp)
    exact ⟨_, hret'⟩
  · intro result after hret hcalls
    obtain ⟨hr, hpending⟩ := returns_of_harmless hret hcalls
    obtain ⟨c, hret', hacc⟩ := ideal_returns hstart hret hr
    refine ⟨hr, hpending, _, hret', ?_⟩
    rw [console_withConsole, hacc, Console.sent, hpending, Array.append_empty]
  · intro result after' hret
    obtain ⟨fuel, result', last, hs, -⟩ := returns_iff.1 hret
    have hsome : (m.steps fuel).isSome = true :=
      isSome_steps_of_ideal hstart (by rw [hideal, hs]; rfl)
    obtain ⟨⟨r, l⟩, hs'⟩ := Option.isSome_iff_exists.1 hsome
    exact ⟨_, _, returns_iff.2 ⟨fuel, r, l, hs', rfl⟩⟩

/-- A buffer of two bytes, drained by a write that is interrupted and then by short ones. -/
theorem run_agrees_with_ideal_of_short_writes :
    (Sink.mk [.fail (.bare .interrupted), .acceptAtMost 1] [] none #[]).NeverCancels ∧
    ∃ after after',
      (start (.ofString "+.+.+.") (.blank 1)
        (.make (.ofBytes []) ⟨[.fail (.bare .interrupted), .acceptAtMost 1], [], none, #[]⟩
          (some 2)) true).Returns (.ok ()) after ∧
      (∀ call ∈ after.console.calls, call.isHarmless = true) ∧
      (start (.ofString "+.+.+.") (.blank 1) (.make (.ofBytes []) .accepting none)
        true).Returns (.ok ()) after' ∧
      after.console.sink.accepted = after'.console.sink.accepted ∧
      after.console.pending = #[] := by
  have hq : (Sink.mk [.fail (.bare .interrupted), .acceptAtMost 1] [] none #[]).NeverCancels := by
    decide
  have hrun : ((start (.ofString "+.+.+.") (.blank 1)
      (.make (.ofBytes []) ⟨[.fail (.bare .interrupted), .acceptAtMost 1], [], none, #[]⟩
        (some 2)) true).run 9).map (fun r => (r.1, r.2.console.calls.all Call.isHarmless)) =
      some (.ok (), true) := by cbv
  obtain ⟨⟨result, after⟩, h, heq⟩ := Option.map_eq_some_iff.1 hrun
  obtain ⟨rfl, hcalls⟩ := Prod.mk.inj heq
  have hharmless : ∀ call ∈ after.console.calls, call.isHarmless = true :=
    List.all_eq_true.1 hcalls
  obtain ⟨-, -, -, -, hagree, -⟩ := run_agrees_with_ideal (.ofString "+.+.+.") (.blank 1)
    (.ofBytes []) [.fail (.bare .interrupted), .acceptAtMost 1] [] none (some 2) true hq
  obtain ⟨-, hpending, after', hret', hacc⟩ := hagree (.ok ()) after ⟨9, h⟩ hharmless
  exact ⟨hq, after, after', ⟨9, h⟩, hharmless, hret', hacc, hpending⟩

end Machine

end Brainfuck
