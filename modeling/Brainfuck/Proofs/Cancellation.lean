import Brainfuck.Proofs.Awaiting
import Brainfuck.Proofs.WithoutCancels

/-!
# Cancellation cuts between instructions

The cancel flag may go up at any time: before a run, between two actions, or inside any call on a
stream, whether the call does all it is asked to, a part of it, or fails. A machine that heeds it
carries on with the instruction at hand, as if nothing had happened, and stops before the next one;
only a `,` does not begin to read. From then on the machine does nothing but flush its output.

* `Machine.step_of_flushRaises`, `Machine.undisturbed_of_not_flushRaises`: while the flag is down, a
  step is the one without cancels, but for a `,` whose flush raises the flag.
* `Machine.after_withoutCancels`, `Machine.run_withoutCancels`: so are all states up to the cut, and
  the runs that are not cut.
* `Machine.returns_interrupted_iff`: where a run is cut.
* `Machine.performAll_of_cancelled`: what a machine does after the cut.
* `Machine.performAll_withoutCancels_of_deaf`: a machine that does not heed the flag is never cut.
* `Machine.cancel_cuts_between_instructions`: what this means for sessions.
-/

namespace Brainfuck

namespace Console

/-- Calls on the output never take the flag down. -/
theorem outputInvariant_cancelled : OutputInvariant fun c => c.flag.cancelled = true where
  buffer _ _ h := h
  offer c bytes h := by
    simp only [offer]
    cases (c.sink.write bytes).2.1
    · exact h
    · rfl
  flushSink c h := by
    simp only [flushSink]
    cases c.sink.flush.2.1
    · exact h
    · rfl

end Console

namespace Machine

variable {m last : Machine} {fuel : Nat} {result : Except RunError Unit}

theorem isCancelled_iff :
    m.isCancelled = true ↔ m.heeds = true ∧ m.console.flag.cancelled = true := by
  rw [isCancelled, Bool.and_eq_true]

/-- **A machine that has been asked to stop stays so.** -/
theorem invariant_isCancelled : Invariant fun m => m.isCancelled = true := by
  have h : Invariant fun m => m.heeds = true ∧ m.console.flag.cancelled = true :=
    .of_console Console.outputInvariant_cancelled (fun c h hq => by simp [h] at hq) fun _ _ => rfl
  simpa only [isCancelled_iff] using h

theorem isCancelled_of_deaf (h : m.heeds = false) : m.isCancelled = false := by
  rw [isCancelled, h, Bool.false_and]

/-- The flag was down before if it is down after what keeps it up. -/
theorem not_cancelled_of_imp (h : m.isCancelled = true → last.isCancelled = true)
    (hlast : last.isCancelled = false) : m.isCancelled = false := by
  rw [← Bool.not_eq_true] at hlast ⊢
  exact mt h hlast

theorem not_cancelled_of_step : m.step.2.isCancelled = false → m.isCancelled = false :=
  not_cancelled_of_imp (invariant_isCancelled.step m)

/-- The step is the one that is taken without cancels. -/
def Undisturbed (m : Machine) : Prop :=
  m.withoutCancels.step = (m.step.1, m.step.2.withoutCancels)

/-- The machine is at a `,` whose own flush succeeds and leaves this console, with the flag up. -/
structure FlushRaises (m : Machine) (c : Console) : Prop where
  at_input : m.program.opAt? m.ip = some .input
  flush : m.console.flush = (.ok (), c)
  raised : (m.withConsole c).isCancelled = true

/-- **A `,` whose flush raises the flag** makes no read, and moves on. -/
theorem step_of_flushRaises {c : Console} (hc : m.isCancelled = false) (h : m.FlushRaises c) :
    m.step = (.ok .next, m.next.withConsole c) := by
  obtain ⟨b, hb, hinput⟩ := Program.opAt?_eq_some_iff.1 h.at_input
  rw [step_of_byte hc hb, hinput, execute, inputCell_of_cancelled h.flush h.raised]
  rfl

/-- **Any other step that begins with the flag down** is undisturbed. -/
theorem undisturbed_of_not_flushRaises (hc : m.isCancelled = false)
    (h : ∀ c, ¬m.FlushRaises c) : m.Undisturbed := by
  have hc' := isCancelled_withoutCancels m
  rcases step_cases m with ⟨hup, -⟩ | ⟨-, hb, hs⟩ | ⟨b, -, hb, hs⟩
  · rw [hc] at hup
    cases hup
  · rw [Undisturbed, hs]
    exact step_of_end hc' hb
  · rcases execute_withoutCancels (.ofByte b) m with hsame | ⟨hi, c, hf, hq, -⟩
    · have hstep := step_of_byte (m := m.withoutCancels) hc' hb
      rw [Undisturbed, hs, hstep, hsame]
    · have hop : m.program.opAt? m.ip = some .input := Program.opAt?_eq_some_iff.2 ⟨b, hb, hi⟩
      exact absurd ⟨hop, hf, hq⟩ (h c)

/-- A step after which the flag is down is undisturbed. -/
theorem undisturbed_of_not_cancelled (h : m.step.2.isCancelled = false) : m.Undisturbed := by
  have hc : m.isCancelled = false := not_cancelled_of_step h
  refine undisturbed_of_not_flushRaises hc ?_
  intro c hraises
  rw [step_of_flushRaises hc hraises] at h
  exact absurd (hraises.raised.symm.trans h) (by simp)

/-- **An instruction in which the flag goes up** completes, or fails with an error of its own
output. -/
theorem step_of_raised (hc : m.isCancelled = false) (h : m.step.2.isCancelled = true) :
    m.step.1 = .ok .next ∨ ∃ e, m.step.1 = .error (.output m.ip e) := by
  rcases step_cases m with ⟨hc', -⟩ | ⟨-, -, hs⟩ | ⟨b, -, hb, hs⟩
  · rw [hc] at hc'
    cases hc'
  · rw [hs, hc] at h
    cases h
  by_cases ho : Opcode.ofByte b = .output
  · rw [hs, ho, execute, outputCell_eq]
    cases (m.console.put m.tape.read).1 with
    | ok u => exact .inl rfl
    | error e => exact .inr ⟨e, rfl⟩
  by_cases hi : Opcode.ofByte b = .input
  · rw [hs, hi, execute]
    rcases inputCell_cases m with ⟨e, c, -, heq⟩ | ⟨c, -, -, heq⟩ | ⟨c, answer, d, -, -, -, heq⟩
    · exact .inr ⟨e, by rw [heq]; rfl⟩
    · exact .inl (by rw [heq]; rfl)
    · exact .inl (by rw [heq]; rfl)
  · -- no other instruction makes a call, so the flag is where it was
    have hconsole : m.step.2.console = m.console := by rw [hs, console_execute ho hi]
    rw [isCancelled, heeds_step, hconsole] at h
    rw [isCancelled, h] at hc
    cases hc

/-- While the flag is down, no step is refused: an error of an instruction says where it stands. -/
theorem step_ne_interrupted (hc : m.isCancelled = false) : m.step.1 ≠ .error .interrupted := by
  intro h
  rcases step_error_cases h with ⟨hc', -, -⟩ | ⟨-, hip, -⟩
  · rw [hc] at hc'
    cases hc'
  · cases hip

theorem not_cancelled_after_of_le {j n : Nat} (hle : j ≤ n)
    (h : (m.after n).isCancelled = false) : (m.after j).isCancelled = false := by
  induction hle with
  | refl => exact h
  | step _ ih => exact ih (not_cancelled_of_step h)

/-- **Up to the cut, all states are those without cancels.** -/
theorem after_withoutCancels {n : Nat} (h : (m.after n).isCancelled = false) :
    m.withoutCancels.after n = (m.after n).withoutCancels := by
  refine after_map ?_
  intro j hj
  exact congrArg Prod.snd
    (undisturbed_of_not_cancelled (not_cancelled_after_of_le (j := j + 1) hj h))

/-- The first `k + 1` steps complete, and the flag goes up in the last of them. -/
structure CutAfter (m : Machine) (k : Nat) : Prop where
  down : (m.after k).isCancelled = false
  proceeds : m.Proceeds (k + 1)
  raised : (m.after (k + 1)).isCancelled = true

theorem steps_of_cancelled (h : m.isCancelled = true) (n : Nat) :
    m.steps (n + 1) = some (.error .interrupted, m) :=
  steps_of_error (step_of_cancelled h) n

/-- A step that completes was not refused. -/
theorem not_cancelled_of_next (h : m.step.1 = .ok .next) : m.isCancelled = false := by
  cases hq : m.isCancelled with
  | false => rfl
  | true =>
    rw [step_of_cancelled hq] at h
    cases h

/-- A step that ends a run is undisturbed, since a skipped read goes on. -/
theorem undisturbed_of_last (hc : m.isCancelled = false) (h : m.steps 1 = some (result, last)) :
    m.Undisturbed := by
  refine undisturbed_of_not_flushRaises hc ?_
  intro c hraises
  rw [steps_of_next (step_of_flushRaises hc hraises)] at h
  cases h

/-- Steps that begin with the flag down end as they do without cancels, or are cut. -/
theorem steps_cases (hc : m.isCancelled = false) (h : m.steps fuel = some (result, last)) :
    (result ≠ .error .interrupted ∧
      m.withoutCancels.steps fuel = some (result, last.withoutCancels)) ∨
    (result = .error .interrupted ∧ ∃ k, m.CutAfter k ∧ last = m.after (k + 1)) := by
  obtain ⟨k, hk, hproceeds, hlast⟩ := exists_last_step h
  cases hq : (m.after k).isCancelled with
  | true =>
    right
    rw [steps_of_cancelled hq 0] at hlast
    cases hlast
    cases k with
    | zero =>
      rw [after, hc] at hq
      cases hq
    | succ k => exact ⟨rfl, k, ⟨not_cancelled_of_next (hproceeds k (by omega)), hproceeds, hq⟩, rfl⟩
  | false =>
    left
    -- the flag is down after each step but the last
    have hundisturbed : ∀ j < k + 1, m.Proceeds j → (m.after j).Undisturbed := by
      intro j hj _
      rcases Nat.lt_succ_iff_lt_or_eq.1 hj with hlt | rfl
      · exact undisturbed_of_not_cancelled (not_cancelled_after_of_le (j := j + 1) hlt hq)
      · exact undisturbed_of_last hq hlast
    have hsame := steps_map hundisturbed
    rw [Nat.add_comm, steps_add hproceeds 1, hlast, Option.map_some] at hsame
    refine ⟨?_, steps_mono hsame (by omega)⟩
    rintro rfl
    exact step_ne_interrupted hq (congrArg Prod.fst (step_of_last_error hlast))

/-- The end of a run makes no interruption and hides none. -/
theorem finish_eq_interrupted_iff :
    (m.finish result).1 = .error .interrupted ↔ result = .error .interrupted := by
  rcases finish_cases result m with ⟨c, -, h⟩ | ⟨e, c, -, h⟩
  · rw [h]
  · rw [h]
    cases result <;> simp [Except.bind]

/-- **A run that is not cut** is the one without cancels, whatever its closing flush raises. -/
theorem run_withoutCancels (hc : m.isCancelled = false) (h : m.run fuel = some (result, last))
    (hne : result ≠ .error .interrupted) :
    m.withoutCancels.run fuel = some (result, last.withoutCancels) := by
  obtain ⟨result', mid, hs, hf⟩ := run_eq_some_iff.1 h
  refine run_eq_some_iff.2 ⟨result', mid.withoutCancels, ?_, ?_⟩
  · rcases steps_cases hc hs with ⟨-, hsame⟩ | ⟨rfl, -⟩
    · exact hsame
    · refine absurd ?_ hne
      have hresult := finish_eq_interrupted_iff (m := mid).2 rfl
      rwa [hf] at hresult
  · rw [finish_withoutCancels, hf]

/-- **Where a run is cut**: the flag goes up in an instruction that completes, and the run stops
before the next one, also at the end of the text. It still flushes its output. -/
theorem returns_interrupted_iff (hc : m.isCancelled = false) :
    m.Returns (.error .interrupted) last ↔
      ∃ k, m.CutAfter k ∧ last = (m.after (k + 1)).flush.2 := by
  rw [returns_iff]
  constructor
  · rintro ⟨fuel, result, mid, hs, hf⟩
    have hresult : result = .error .interrupted := by
      rw [← finish_eq_interrupted_iff (m := mid), hf]
    rcases steps_cases hc hs with ⟨hne, -⟩ | ⟨-, k, hcut, rfl⟩
    · exact absurd hresult hne
    · exact ⟨k, hcut, by rw [← finish_snd result, hf]⟩
  · rintro ⟨k, hcut, rfl⟩
    have hsteps := steps_add hcut.proceeds 1
    rw [steps_of_cancelled hcut.raised 0] at hsteps
    exact ⟨1 + (k + 1), .error .interrupted, m.after (k + 1), hsteps, rfl⟩

section session

variable {action : Action} {actions : List Action} {answer : Answer} {answers : List Answer}

/-- An action of a machine that heeds the flag, if the flag is down after it. -/
theorem perform_withoutCancels (hheeds : m.heeds = true)
    (h : m.perform fuel action = some (answer, last)) (hlast : last.isCancelled = false) :
    m.withoutCancels.perform fuel action = some (answer, last.withoutCancels) := by
  have hc : m.isCancelled = false :=
    not_cancelled_of_imp (fun hm => invariant_isCancelled.perform hm h) hlast
  cases action with
  | step =>
    simp only [perform, Option.some.injEq, Prod.mk.injEq] at h
    obtain ⟨rfl, rfl⟩ := h
    rw [perform, undisturbed_of_not_cancelled hlast]
  | cancel =>
    cases h
    have hraised : m.cancel.isCancelled = true := isCancelled_iff.2 ⟨hheeds, rfl⟩
    rw [hraised] at hlast
    cases hlast
  | run =>
    obtain ⟨⟨result, after⟩, hr, heq⟩ := Option.map_eq_some_iff.1 h
    cases heq
    have hne : result ≠ .error .interrupted := by
      rintro rfl
      obtain ⟨k, hcut, rfl⟩ := (returns_interrupted_iff hc).1 ⟨fuel, hr⟩
      rw [invariant_isCancelled.flush _ hcut.raised] at hlast
      cases hlast
    rw [perform, run_withoutCancels hc hr hne]
    rfl

/-- **A session that ends with the flag down** is the one without cancels. -/
theorem performAll_withoutCancels (hheeds : m.heeds = true)
    (h : m.performAll fuel actions = some (answers, last)) (hlast : last.isCancelled = false) :
    m.withoutCancels.performAll fuel actions = some (answers, last.withoutCancels) := by
  induction actions generalizing m answers with
  | nil =>
    cases h
    rfl
  | cons action rest ih =>
    simp only [performAll] at h
    split at h
    · cases h
    · rename_i answer after hfirst
      obtain ⟨⟨answers', last'⟩, hrest, heq⟩ := Option.map_eq_some_iff.1 h
      cases heq
      have hafter : after.isCancelled = false :=
        not_cancelled_of_imp (fun hm => invariant_isCancelled.performAll hm hrest) hlast
      have hheeds' := (invariant_heeds true).perform hheeds hfirst
      rw [performAll, perform_withoutCancels hheeds hfirst hafter]
      simp only [ih hheeds' hrest, Option.map_some]

/-- What an action answers on a machine that has been asked to stop. -/
def refusal : Action → Answer
  | .step => .stepped (.error .interrupted)
  | .run => .ran (.error .interrupted)
  | .cancel => .cancelled

theorem cancel_of_cancelled (h : m.isCancelled = true) : m.cancel = m := by
  obtain ⟨program, tape, ip, ⟨source, sink, buffer, ⟨cancelled, awaiting⟩, calls⟩, heeds⟩ := m
  obtain ⟨-, hcancelled⟩ := isCancelled_iff.1 h
  cases hcancelled
  rfl

/-- **After the cut every action is refused**, and all that is done is the flush of each run. -/
theorem performAll_of_cancelled (h : m.isCancelled = true) (n : Nat) (actions : List Action) :
    m.performAll (n + 1) actions =
      some (actions.map refusal, (fun m => m.flush.2)^[actions.count .run] m) := by
  induction actions generalizing m with
  | nil => rfl
  | cons action rest ih =>
    cases action with
    | step =>
      have hperform : m.perform (n + 1) .step = some (refusal .step, m) := by
        rw [perform, step_of_cancelled h]
        rfl
      simp only [performAll, hperform, ih h, Option.map_some]
      rfl
    | cancel =>
      have hperform : m.perform (n + 1) .cancel = some (refusal .cancel, m) := by
        rw [perform, cancel_of_cancelled h]
        rfl
      simp only [performAll, hperform, ih h, Option.map_some]
      rfl
    | run =>
      have hperform : m.perform (n + 1) .run = some (refusal .run, m.flush.2) := by
        rw [perform, run, steps_of_cancelled h]
        rfl
      have hflush := invariant_isCancelled.flush m h
      simp only [performAll, hperform, ih hflush, Option.map_some, List.count_cons_self,
        Function.iterate_succ_apply]
      rfl

/-- Flushes change nothing but the console, and keep of it what calls on the output keep. -/
theorem iterate_flush {P : Console → Prop} (hP : Console.OutputInvariant P) (h : P m.console)
    (k : Nat) : ∃ c, P c ∧ (fun m => m.flush.2)^[k] m = m.withConsole c := by
  induction k with
  | zero => exact ⟨m.console, h, rfl⟩
  | succ k ih =>
    obtain ⟨c, hc, heq⟩ := ih
    have hflush := hP.flush hc
    rw [Function.iterate_succ_apply', heq]
    refine ⟨c.flush.2, hflush, ?_⟩
    unfold flush
    rcases hf : c.flush with ⟨_ | _, d⟩ <;> simp [hf, withConsole]

/-- The steps of a machine that does not heed the flag. -/
theorem undisturbed_of_deaf (h : m.heeds = false) : m.Undisturbed :=
  undisturbed_of_not_cancelled (isCancelled_of_deaf ((heeds_step m).trans h))

/-- An action of a machine that does not heed the flag. -/
theorem perform_withoutCancels_of_deaf (h : m.heeds = false) (hne : action ≠ .cancel) :
    m.withoutCancels.perform fuel action =
      (m.perform fuel action).map fun r => (r.1, r.2.withoutCancels) := by
  cases action with
  | cancel => exact absurd rfl hne
  | step =>
    rw [perform, undisturbed_of_deaf h]
    rfl
  | run =>
    have hsteps : m.withoutCancels.steps fuel =
        (m.steps fuel).map fun r => (r.1, r.2.withoutCancels) :=
      steps_map fun j _ _ => undisturbed_of_deaf ((heeds_after j).trans h)
    rw [perform, run, hsteps, perform, run]
    cases m.steps fuel with
    | none => rfl
    | some ended => simp [finish_withoutCancels]

theorem ne_cancelled_of_perform (h : m.perform fuel action = some (answer, last))
    (hne : action ≠ .cancel) : answer ≠ .cancelled := by
  cases action with
  | cancel => exact absurd rfl hne
  | step =>
    cases h
    simp
  | run =>
    obtain ⟨_, -, heq⟩ := Option.map_eq_some_iff.1 h
    cases heq
    simp

/-- **A machine that does not heed the flag** goes through its session as without cancels. -/
theorem performAll_withoutCancels_of_deaf (h : m.heeds = false) (fuel : Nat)
    (actions : List Action) :
    m.withoutCancels.performAll fuel (actions.filter (· != .cancel)) =
      (m.performAll fuel actions).map fun r =>
        (r.1.filter (· != .cancelled), r.2.withoutCancels) := by
  induction actions generalizing m with
  | nil => rfl
  | cons action rest ih =>
    by_cases hcancel : action = .cancel
    · subst hcancel
      have hrest := ih (m := m.cancel) h
      rw [withoutCancels_cancel] at hrest
      simp only [performAll, perform, Option.map_map]
      rw [List.filter_cons_of_neg (by simp), hrest]
      rfl
    · rw [List.filter_cons_of_pos (by simpa using hcancel), performAll, performAll,
        perform_withoutCancels_of_deaf h hcancel]
      cases hp : m.perform fuel action with
      | none => rfl
      | some done =>
        obtain ⟨answer, after⟩ := done
        have hrest := ih ((invariant_heeds false).perform h hp)
        have hanswer := ne_cancelled_of_perform hp hcancel
        simp only [Option.map_some, hrest, Option.map_map]
        congr 1
        funext ended
        simp [hanswer]

end session

/-- **Cancellation cuts between instructions, and nowhere else.** Let a machine that heeds the flag
go through any session, and stand after it with the flag still down. Then the session is the one
in which no call raises the flag, answer for answer and state for state. So are the states that
the next steps come to while the flag is down. Each such step is the one without cancels, unless
it is a `,` whose own flush raises the flag, which makes no read and leaves the tape; and a step
in which the flag goes up completes or fails with an error of its own output. A run that is not
interrupted is the one without cancels, also if its closing flush raises the flag; a run is
interrupted just if the flag goes up in an instruction that completes, behind which it stops.

Let the machine stand after the session with the flag up. Then every further step and run is
interrupted. All that a run does is its flush, and the index, the tape and the input stay.

A machine that does not heed the flag goes through any session as through the one in which all
cancels are left out. -/
theorem cancel_cuts_between_instructions (program : Program) (tape : Tape) (source : Source)
    (sink : Sink) (capacity : Option Nat) (fuel : Nat) (actions : List Action) :
    (∀ answers mid,
      (start program tape (.make source sink capacity) true).performAll fuel actions =
        some (answers, mid) →
      (mid.isCancelled = false →
        (start program tape (.make source.withoutCancels sink.withoutCancels capacity)
          true).performAll fuel actions = some (answers, mid.withoutCancels) ∧
        (∀ n, (mid.after n).isCancelled = false →
          mid.withoutCancels.after n = (mid.after n).withoutCancels ∧
          ((∀ c, ¬(mid.after n).FlushRaises c) → (mid.after n).Undisturbed) ∧
          (∀ c, (mid.after n).FlushRaises c →
            (mid.after n).step = (.ok .next, (mid.after n).next.withConsole c)) ∧
          ((mid.after (n + 1)).isCancelled = true →
            (mid.after n).step.1 = .ok .next ∨
              ∃ e, (mid.after n).step.1 = .error (.output (mid.after n).ip e))) ∧
        (∀ n result last, mid.run n = some (result, last) → result ≠ .error .interrupted →
          mid.withoutCancels.run n = some (result, last.withoutCancels)) ∧
        (∀ last, mid.Returns (.error .interrupted) last ↔
          ∃ k, mid.CutAfter k ∧ last = (mid.after (k + 1)).flush.2)) ∧
      (mid.isCancelled = true → ∀ n more, ∃ last,
        mid.performAll (n + 1) more = some (more.map refusal, last) ∧
        last = (fun m => m.flush.2)^[more.count .run] mid ∧
        last.ip = mid.ip ∧ last.tape = mid.tape ∧ last.console.source = mid.console.source ∧
        last.console.reads = mid.console.reads)) ∧
    (start program tape (.make source.withoutCancels sink.withoutCancels capacity)
      false).performAll fuel (actions.filter (· != .cancel)) =
        ((start program tape (.make source sink capacity) false).performAll fuel actions).map
          fun r => (r.1.filter (· != .cancelled), r.2.withoutCancels) := by
  constructor
  · intro answers mid h
    constructor
    · intro hdown
      refine ⟨?_, ?_, fun n result last => run_withoutCancels hdown,
        fun last => returns_interrupted_iff hdown⟩
      · rw [← start_withoutCancels]
        exact performAll_withoutCancels rfl h hdown
      · intro n hn
        exact ⟨after_withoutCancels hn, undisturbed_of_not_flushRaises hn,
          fun c => step_of_flushRaises hn, step_of_raised hn⟩
    · intro hup n more
      obtain ⟨c, hsource, hc⟩ :=
        iterate_flush (Console.outputInvariant_source mid.console.source) rfl (more.count .run)
      obtain ⟨d, hreads, hd⟩ :=
        iterate_flush (Console.outputInvariant_reads mid.console.reads) rfl (more.count .run)
      refine ⟨_, performAll_of_cancelled hup n more, rfl, ?_⟩
      refine ⟨by rw [hc]; rfl, by rw [hc]; rfl, by rw [hc]; exact hsource, by rw [hd]; exact hreads⟩
  · rw [← start_withoutCancels]
    exact performAll_withoutCancels_of_deaf rfl fuel actions

/-- The flush before the `,` raises the flag: nothing is read, the run stops behind the `,`, and
later actions are refused. The write of a `.` that fails raises the flag as well: its error is
what the `.` answers, as it does without the cancel, and later actions are refused. -/
theorem cancel_cuts_between_instructions_of_raising_calls :
    (let m := start (.ofString "+,+.") (.blank 1)
      (.make (.ofBytes [65]) ⟨[], [.cancel], none, #[]⟩ none) true
    (m.after 1).isCancelled = false ∧ (m.after 2).isCancelled = true ∧
    (m.after 1).Returns (.error .interrupted) (m.after 2).flush.2 ∧
    ∃ last, (m.after 2).performAll 1 [.step, .run] =
        some ([.stepped (.error .interrupted), .ran (.error .interrupted)], last) ∧
      last.ip = 2 ∧ last.tape = (m.after 1).tape) ∧
    (let m := start (.ofString "+.+.") (.blank 1)
      (.make (.ofBytes []) ⟨[⟨.fail (.system 32), true⟩], [], none, #[]⟩ none) true
    (m.after 1).isCancelled = false ∧ (m.after 2).isCancelled = true ∧
    (m.after 1).Undisturbed ∧ (m.after 1).step.1 = .error (.output 1 (.system 32)) ∧
    (∃ last, (m.after 1).withoutCancels.run 1 = some (.error (.output 1 (.system 32)), last)) ∧
    ∃ last, (m.after 2).performAll 1 [.step, .run] =
        some ([.stepped (.error .interrupted), .ran (.error .interrupted)], last) ∧
      last.ip = 2 ∧ last.tape = (m.after 2).tape) := by
  constructor
  · intro m
    have hdown : (m.after 1).isCancelled = false := by cbv
    have hup : (m.after 2).isCancelled = true := by cbv
    have htape : (m.after 2).tape = (m.after 1).tape := by cbv
    have hcut : (m.after 1).CutAfter 0 := by
      refine ⟨hdown, ?_, hup⟩
      intro j hj
      rw [Nat.lt_one_iff.1 hj]
      cbv
    obtain ⟨-, -, -, hreturns⟩ := ((cancel_cuts_between_instructions (.ofString "+,+.") (.blank 1)
      (.ofBytes [65]) ⟨[], [.cancel], none, #[]⟩ none 9 [.step]).1 _ (m.after 1) rfl).1 hdown
    obtain ⟨last, hlast, -, hip, htape', -⟩ := ((cancel_cuts_between_instructions
      (.ofString "+,+.") (.blank 1) (.ofBytes [65]) ⟨[], [.cancel], none, #[]⟩ none 9
        [.step, .step]).1 _ (m.after 2) rfl).2 hup 0 [.step, .run]
    exact ⟨hdown, hup, (hreturns _).2 ⟨0, hcut, rfl⟩, last, hlast, hip, htape'.trans htape⟩
  · intro m
    have hdown : (m.after 1).isCancelled = false := by cbv
    have hup : (m.after 2).isCancelled = true := by cbv
    have hindex : (m.after 2).ip = 2 := by cbv
    have hstep : (m.after 1).step.1 = .error (.output 1 (.system 32)) := by cbv
    have hrun : ((m.after 1).run 1).map Prod.fst = some (.error (.output 1 (.system 32))) := by cbv
    obtain ⟨⟨result, after⟩, hafter, rfl⟩ := Option.map_eq_some_iff.1 hrun
    have hfails : (.error (.output 1 (.system 32)) : Except RunError Unit) ≠
        .error .interrupted := by simp
    have hplain : ∀ c, ¬(m.after 1).FlushRaises c := by
      rintro c ⟨hop, -, -⟩
      have houtput : (m.after 1).program.opAt? (m.after 1).ip = some .output := by cbv
      rw [houtput] at hop
      cases hop
    obtain ⟨-, hsteps, hruns, -⟩ := ((cancel_cuts_between_instructions (.ofString "+.+.")
      (.blank 1) (.ofBytes []) ⟨[⟨.fail (.system 32), true⟩], [], none, #[]⟩ none 9
        [.step]).1 _ (m.after 1) rfl).1 hdown
    obtain ⟨-, hundisturbed, -⟩ := hsteps 0 hdown
    obtain ⟨last, hlast, -, hip, htape, -⟩ := ((cancel_cuts_between_instructions
      (.ofString "+.+.") (.blank 1) (.ofBytes []) ⟨[⟨.fail (.system 32), true⟩], [], none, #[]⟩
        none 9 [.step, .step]).1 _ (m.after 2) rfl).2 hup 0 [.step, .run]
    exact ⟨hdown, hup, hundisturbed hplain, hstep, ⟨_, hruns 1 _ after hafter hfails⟩,
      last, hlast, hip.trans hindex, htape⟩

end Machine

end Brainfuck
