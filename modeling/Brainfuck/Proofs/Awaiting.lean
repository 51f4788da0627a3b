import Brainfuck.Proofs.Conservation

/-!
# Nothing is pending while input is awaited

A `,` flushes the output before it reads, and the cancel flag tells of the wait during the read
and at no other time. So whenever a read begins, the sink has accepted and flushed all that was
printed, and whoever stops the process then loses nothing.

* `Machine.reading?`: the console on which the next step reads, if it does.
* `Machine.step_of_reading`, `Machine.reads_step`: such a step makes this one read, and any other
  step makes none.
* `Machine.settled_of_reading`: on such a console nothing is pending.
* `Machine.invariant_calm`: every call, and every action, leaves the flag without a wait.
* `Machine.nothing_pending_at_reads`: what this means for sessions.
-/

namespace Brainfuck

/-- Did the flag tell of a wait when it should? It should in a read of a machine that heeds it,
which then has not been asked to stop, and in no other call. -/
def Call.WellTimed (heeds : Bool) : Call → Prop
  | .write awaiting .. => awaiting = false
  | .flush awaiting _ => awaiting = false
  | .read awaiting cancelled _ => awaiting = heeds ∧ (heeds = true → cancelled = false)

namespace Console

variable {c after : Console} {heeds : Bool}

/-- The flag tells of no wait, and it told of one in the right calls. -/
structure Calm (heeds : Bool) (c : Console) : Prop where
  awaiting : c.flag.awaitingInput = false
  calls : ∀ call ∈ c.calls, call.WellTimed heeds

theorem calm_make (source : Source) (sink : Sink) (capacity : Option Nat) :
    (make source sink capacity).Calm heeds := ⟨rfl, by simp [make]⟩

/-- A call at the right time keeps a calm console calm. -/
theorem Calm.call {call : Call} (h : c.Calm heeds) (hcall : call.WellTimed heeds) :
    ∀ call' ∈ call :: c.calls, call'.WellTimed heeds := by
  intro call' hmem
  rcases List.mem_cons.1 hmem with rfl | hmem
  · exact hcall
  · exact h.calls call' hmem

/-- Calls on the output leave the console calm. -/
theorem outputInvariant_calm : OutputInvariant (Calm heeds) where
  buffer _ _ h := ⟨h.awaiting, h.calls⟩
  offer c bytes h := by
    refine ⟨by simpa [offer] using h.awaiting, ?_⟩
    simp only [offer, calls_cancelIf]
    exact h.call h.awaiting
  flushSink c h := by
    refine ⟨by simpa [flushSink] using h.awaiting, ?_⟩
    simp only [flushSink, calls_cancelIf]
    exact h.call h.awaiting

/-- The number of reads made so far. -/
def reads (c : Console) : Nat := c.calls.countP Call.isRead

/-- Calls on the output are no reads. -/
theorem outputInvariant_reads (n : Nat) : OutputInvariant fun c => c.reads = n where
  buffer _ _ h := h
  offer c bytes h := by
    rw [← h]
    simp [reads, offer, Call.isRead]
  flushSink c h := by
    rw [← h]
    simp [reads, flushSink, Call.isRead]

/-- A flush that succeeds has ended with a flush of the sink. -/
theorem calls_of_flush (h : c.flush = (.ok (), after)) :
    ∃ older, after.calls = .flush c.flag.awaitingInput (.ok ()) :: older := by
  unfold flush at h
  split at h
  · cases h
  · rename_i mid hd
    have hawait : mid.flag.awaitingInput = c.flag.awaitingInput :=
      (served_of_drain hd).only.awaiting
    rw [flushSink_eq] at h
    obtain ⟨hok, rfl⟩ := Prod.mk.inj h
    exact ⟨mid.calls, by simp [hok, hawait]⟩

theorem calls_read (c : Console) :
    c.read.2.calls = .read c.flag.awaitingInput c.flag.cancelled c.read.1 :: c.calls := by
  simp [read]

theorem reads_read (c : Console) : c.read.2.reads = c.reads + 1 := by
  rw [reads, calls_read, List.countP_cons]
  rfl

theorem awaitingInput_read (c : Console) :
    c.read.2.flag.awaitingInput = c.flag.awaitingInput := by
  simp [read]

@[simp] theorem calls_await (c : Console) (waits : Bool) : (c.await waits).calls = c.calls := rfl

@[simp] theorem cancelled_await (c : Console) (waits : Bool) :
    (c.await waits).flag.cancelled = c.flag.cancelled := rfl

theorem await_eq_self {waits : Bool} (h : c.flag.awaitingInput = waits) : c.await waits = c := by
  subst h
  rfl

/-- A machine that heeds the flag tells of the wait in its read and takes it back; any other
leaves the flag alone. -/
theorem awaitRead_eq (h : c.flag.awaitingInput = false) :
    Machine.awaitRead c heeds = ((c.await heeds).read.1, (c.await heeds).read.2.await false) := by
  cases heeds with
  | true => rfl
  | false =>
    have hafter : c.read.2.flag.awaitingInput = false := (awaitingInput_read c).trans h
    rw [await_eq_self h, await_eq_self hafter]
    rfl

/-- A read leaves the console calm, unless the machine had been asked to stop. -/
theorem Calm.awaitRead (h : c.Calm heeds) (hq : (heeds && c.flag.cancelled) = false) :
    (Machine.awaitRead c heeds).2.Calm heeds := by
  rw [awaitRead_eq h.awaiting]
  refine ⟨rfl, ?_⟩
  rw [calls_await, calls_read]
  refine h.call ⟨rfl, ?_⟩
  rintro rfl
  exact hq

end Console

namespace Machine

variable {m last : Machine} {c : Console} {fuel : Nat} {heeds : Bool}

/-- **The flag tells of no wait between actions**, and told of one in no call but the reads of a
machine that heeds it. -/
theorem invariant_calm (heeds : Bool) :
    Invariant fun m => m.heeds = heeds ∧ m.console.Calm heeds :=
  .of_console Console.outputInvariant_calm (fun _ h hq => h.awaitRead hq)
    fun _ h => ⟨h.awaiting, h.calls⟩

/-- The console on which the next step makes its read, if it makes one: a machine at a `,` has
flushed its output, has not been asked to stop, and tells of the wait. -/
def reading? (m : Machine) : Option Console :=
  if m.isCancelled = false ∧ m.program.opAt? m.ip = some .input then
    match m.console.flush with
    | (.ok _, c) => if m.heeds && c.flag.cancelled then none else some (c.await m.heeds)
    | (.error _, _) => none
  else none

theorem reading?_eq_some_iff :
    m.reading? = some c ↔ m.isCancelled = false ∧ m.program.opAt? m.ip = some .input ∧
      ∃ d, m.console.flush = (.ok (), d) ∧ (m.heeds && d.flag.cancelled) = false ∧
        d.await m.heeds = c := by
  unfold reading?
  split
  · rename_i hin
    rcases hf : m.console.flush with ⟨e | _, d⟩
    · simp
    · cases hq : m.heeds && d.flag.cancelled with
      | false =>
        simp only [hin, hq, Prod.mk.injEq, true_and, exists_eq_left', Bool.false_eq_true, if_false,
          Option.some.injEq]
      | true =>
        simp only [hq, Prod.mk.injEq, true_and, exists_eq_left', if_true, reduceCtorEq, false_and,
          and_false]
  · rename_i hout
    constructor
    · intro h
      cases h
    · rintro ⟨hc, hop, -⟩
      exact absurd ⟨hc, hop⟩ hout

/-- **A step that reads** reads once, on its console; it takes the wait back, and moves on. -/
theorem step_of_reading (hcalm : m.console.Calm m.heeds) (h : m.reading? = some c) :
    m.step = (.ok .next,
      { m.next.withConsole (c.read.2.await false) with tape := received m.tape c.read.1 }) := by
  obtain ⟨hc, hop, d, hf, hq, rfl⟩ := reading?_eq_some_iff.1 h
  obtain ⟨b, hb, hinput⟩ := Program.opAt?_eq_some_iff.1 hop
  have hd : d.Calm m.heeds := by
    have hflush := Console.outputInvariant_calm.flush hcalm
    rwa [hf] at hflush
  rw [step_of_byte hc hb, hinput, execute,
    inputCell_of_read hf hq (Console.awaitRead_eq hd.awaiting)]
  rfl

/-- Any other step makes no call but on the output. -/
theorem console_step_of_none {P : Console → Prop} (hP : Console.OutputInvariant P)
    (h : m.reading? = none) (hconsole : P m.console) : P m.step.2.console := by
  rcases step_cases m with ⟨-, hs⟩ | ⟨-, -, hs⟩ | ⟨b, hc, hb, hs⟩ <;> rw [hs]
  · exact hconsole
  · exact hconsole
  -- an instruction that is not asked to stop before its read would make one
  by_cases hi : Opcode.ofByte b = .input
  · have hop : m.program.opAt? m.ip = some .input :=
      Program.opAt?_eq_some_iff.2 ⟨b, hb, hi⟩
    have hflush := hP.flush hconsole
    rw [hi, execute]
    rcases inputCell_cases m with ⟨e, d, hf, heq⟩ | ⟨d, hf, -, heq⟩ | ⟨d, answer, d', hf, hq, -, -⟩
    · rw [hf] at hflush
      rwa [heq]
    · rw [hf] at hflush
      rwa [heq]
    · have hsome := reading?_eq_some_iff.2 ⟨hc, hop, d, hf, hq, rfl⟩
      rw [h] at hsome
      cases hsome
  by_cases ho : Opcode.ofByte b = .output
  · rw [ho, execute, outputCell_eq]
    exact hP.put m.tape.read hconsole
  · rw [console_execute ho hi]
    exact hconsole

theorem reads_step_of_none (h : m.reading? = none) :
    m.step.2.console.reads = m.console.reads :=
  console_step_of_none (Console.outputInvariant_reads m.console.reads) h rfl

/-- **A step makes at most one read**, and makes it at a `,`. -/
theorem reads_step (hcalm : m.console.Calm m.heeds) :
    m.step.2.console.reads = m.console.reads + if m.reading?.isSome then 1 else 0 := by
  cases h : m.reading? with
  | none => exact reads_step_of_none h
  | some c =>
    obtain ⟨-, -, d, hf, -, rfl⟩ := reading?_eq_some_iff.1 h
    have hd : d.reads = m.console.reads := by
      have hflush := (Console.outputInvariant_reads m.console.reads).flush rfl
      rwa [hf] at hflush
    rw [step_of_reading hcalm h]
    calc (d.await m.heeds).read.2.reads
        = (d.await m.heeds).reads + 1 := Console.reads_read _
      _ = m.console.reads + 1 := by rw [← hd]; rfl

/-- **When a read begins, nothing is pending**: the sink has accepted all that was printed, its
last call was a flush that succeeded, and the flag tells of the wait if the machine heeds it. -/
theorem settled_of_reading (hcalm : m.console.Calm m.heeds) (h : m.reading? = some c) :
    c.sink.accepted = m.console.sent ∧ c.pending = #[] ∧
      (∃ older, c.calls = .flush false (.ok ()) :: older) ∧
      c.flag.awaitingInput = m.heeds ∧ (m.heeds = true → c.flag.cancelled = false) := by
  obtain ⟨-, -, d, hf, hq, rfl⟩ := reading?_eq_some_iff.1 h
  have hpending : d.pending = #[] := Console.pending_of_flush hf
  have hsent : d.sent = m.console.sent := by
    simpa using (Console.served_of_flush hf).sent_of_ok rfl
  refine ⟨?_, hpending, ?_, rfl, ?_⟩
  · rw [← hsent, Console.sent, hpending, Array.append_empty]
    rfl
  · obtain ⟨older, hcalls⟩ := Console.calls_of_flush hf
    exact ⟨older, by rw [Console.calls_await, hcalls, hcalm.awaiting]⟩
  · intro hheeds
    rw [Console.cancelled_await]
    simpa [hheeds] using hq

/-- **Nothing is pending while input is awaited.** Let any session be given, with any program,
tape, streams, buffer and scripts.

Whenever one of its steps reads, then on the console of that read the sink has accepted, behind
what it had accepted at first, the bytes of all earlier `.` that succeeded; the buffer is empty;
the last call was a flush of the sink that succeeded; the flag tells of the wait if and only if
the machine heeds it, and then it is not raised. The step makes this one read.

Every step makes at most one read, and only at a `,`. After every step and every action the flag
tells of no wait, and it told of none in any write or flush. -/
theorem nothing_pending_at_reads (program : Program) (tape : Tape) (source : Source) (sink : Sink)
    (capacity : Option Nat) (heeds : Bool) (fuel : Nat) (actions : List Action) :
    let m := start program tape (.make source sink capacity) heeds
    (∀ (before : List Machine) (mid : Machine) (later : List Machine) (c : Console),
      m.trail fuel actions = before ++ mid :: later → mid.reading? = some c →
      c.sink.accepted.toList =
        sink.accepted.toList ++ (before.filter prints).map (·.tape.read) ∧
      c.pending = #[] ∧
      (∃ older, c.calls = .flush false (.ok ()) :: older) ∧
      c.flag.awaitingInput = heeds ∧
      (heeds = true → c.flag.cancelled = false) ∧
      mid.step.2.console = c.read.2.await false) ∧
    (∀ mid ∈ m.trail fuel actions,
      mid.step.2.console.reads = mid.console.reads + (if mid.reading?.isSome then 1 else 0) ∧
      (mid.reading?.isSome → mid.program.opAt? mid.ip = some .input) ∧
      mid.step.2.console.Calm heeds) ∧
    (∀ answers last, m.performAll fuel actions = some (answers, last) →
      last.console.Calm heeds) := by
  intro m
  have hstart : m.heeds = heeds ∧ m.console.Calm heeds := ⟨rfl, Console.calm_make _ _ _⟩
  have htrail : ∀ mid ∈ m.trail fuel actions, mid.heeds = heeds ∧ mid.console.Calm heeds :=
    (invariant_calm heeds).trail hstart
  refine ⟨?_, ?_, fun answers last h => ((invariant_calm heeds).performAll hstart h).2⟩
  · intro before mid later c hsplit hreading
    obtain ⟨hheeds, hcalm⟩ := htrail mid (by rw [hsplit]; simp)
    rw [← hheeds] at hcalm
    obtain ⟨haccepted, hpending, hflushed, hawaiting, hraised⟩ :=
      settled_of_reading hcalm hreading
    rw [hheeds] at hawaiting hraised
    refine ⟨?_, hpending, hflushed, hawaiting, hraised, ?_⟩
    · have hsent := sent_trail hsplit
      rw [haccepted, hsent, show m.console.sent = sink.accepted from sent_make source sink capacity]
    · rw [step_of_reading hcalm hreading]
      rfl
  · intro mid hmid
    obtain ⟨hheeds, hcalm⟩ := htrail mid hmid
    have hstep := (invariant_calm heeds).step mid ⟨hheeds, hcalm⟩
    rw [← hheeds] at hcalm
    refine ⟨reads_step hcalm, ?_, hstep.2⟩
    intro hsome
    obtain ⟨c, hc⟩ := Option.isSome_iff_exists.1 hsome
    exact (reading?_eq_some_iff.1 hc).2.1

/-- Two bytes wait in the buffer until the `,`, and are with the sink when it reads, though one
write is short and the next is interrupted. -/
theorem nothing_pending_at_reads_of_short_writes :
    let m := start (.ofString ".+.,.") (.blank 1)
      (.make (.ofBytes [65]) ⟨[.acceptAtMost 1, .fail (.system 4)], [], none, #[]⟩ (some 8)) true
    ∃ (before : List Machine) (mid : Machine) (later : List Machine) (c : Console),
      m.trail 9 [.run] = before ++ mid :: later ∧
      mid.reading? = some c ∧ mid.console.pending = #[0, 1] ∧
      c.sink.accepted.toList = [0, 1] ∧ c.pending = #[] ∧ c.flag.awaitingInput = true := by
  intro m
  obtain ⟨hreads, -, -⟩ := nothing_pending_at_reads (.ofString ".+.,.") (.blank 1) (.ofBytes [65])
    ⟨[.acceptAtMost 1, .fail (.system 4)], [], none, #[]⟩ (some 8) true 9 [.run]
  have hlength : 3 < (m.trail 9 [.run]).length := by cbv
  have hsplit : m.trail 9 [.run] =
      (m.trail 9 [.run]).take 3 ++ (m.trail 9 [.run])[3] :: (m.trail 9 [.run]).drop 4 := by
    rw [← List.drop_eq_getElem_cons hlength, List.take_append_drop]
  have hsome : ((m.trail 9 [.run])[3]).reading?.isSome = true := by cbv
  have hheld : ((m.trail 9 [.run])[3]).console.pending = #[0, 1] := by cbv
  have hprinted : (((m.trail 9 [.run]).take 3).filter prints).map (·.tape.read) = [0, 1] := by cbv
  obtain ⟨c, hc⟩ := Option.isSome_iff_exists.1 hsome
  obtain ⟨haccepted, hpending, -, hawaiting, -⟩ := hreads _ _ _ c hsplit hc
  rw [hprinted] at haccepted
  exact ⟨_, _, _, c, hsplit, hc, hheld, haccepted, hpending, hawaiting⟩

end Machine

end Brainfuck
