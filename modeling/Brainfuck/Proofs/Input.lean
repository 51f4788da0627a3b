import Brainfuck.Proofs.WithoutFailures

/-!
# Input is consumed once and in order

A `,` stores the byte that its read delivers, if it does, in the cell under the cursor. No byte is
lost between the input and the tape, and none is stored twice: the bytes stored in a session are
those that its reads have delivered, which are those that the input has given up.

* `Source.bytes_read`: a read takes the byte that it delivers from the front of the input.
* `Machine.step_of_answer`, `Machine.tape_step_of_unanswered`: what a `,` does to the tape.
* `Machine.answers_step`: a step adds what it reads to the answers of the input.
* `Machine.delivered_performAll`, `Machine.delivered_trail`: the bytes delivered in a session are
  those stored by its steps.
* `Machine.invariant_bytes`: these bytes and those left make up the input.
* `Machine.input_is_consumed_in_order`: all of this, and that failed reads are invisible.
-/

namespace Brainfuck

/-- The byte that a read of the item delivers, if it does. -/
def InputItem.byte? : InputItem → Option UInt8
  | .byte b => some b
  | .endOfInput | .fail _ | .cancel => none

/-- What the call has found, if it is a read. -/
def Call.answer? : Call → Option ReadResult
  | .read _ _ answer => some answer
  | .write .. | .flush .. => none

namespace Source

/-- The bytes that reads of the input will deliver. -/
def bytes (s : Source) : List UInt8 := s.items.filterMap InputItem.byte?

theorem bytes_readItems (broken : Option IoError) (items : List InputItem) :
    items.filterMap InputItem.byte? = (readItems broken items).1.byte?.toList ++
      (readItems broken items).2.2.filterMap InputItem.byte? := by
  induction items with
  | nil => cases broken <;> rfl
  | cons item rest ih =>
    cases item with
    | cancel => exact ih
    | byte b => rfl
    | endOfInput => rfl
    | fail e => rfl

/-- **A read takes the byte that it delivers** from the front of the input. -/
theorem bytes_read (s : Source) : s.bytes = s.read.1.byte?.toList ++ s.read.2.2.bytes :=
  bytes_readItems s.broken s.items

end Source

namespace Console

/-- What the reads have found, the earliest first. -/
def answers (c : Console) : List ReadResult := c.calls.reverse.filterMap Call.answer?

/-- The bytes that the reads have delivered, the earliest first. -/
def delivered (c : Console) : List UInt8 := c.answers.filterMap ReadResult.byte?

/-- Calls on the output find nothing on the input. -/
theorem outputInvariant_answers (found : List ReadResult) :
    OutputInvariant fun c => c.answers = found where
  buffer _ _ h := h
  offer c bytes h := by
    rw [← h]
    simp [answers, offer, Call.answer?]
  flushSink c h := by
    rw [← h]
    simp [answers, flushSink, Call.answer?]

theorem outputInvariant_bytes (bytes : List UInt8) :
    OutputInvariant fun c => c.delivered ++ c.source.bytes = bytes where
  buffer _ _ h := h
  offer c offered h := by
    have hanswers := (outputInvariant_answers c.answers).offer c offered rfl
    have hsource := (outputInvariant_source c.source).offer c offered rfl
    rw [delivered, hanswers, hsource]
    exact h
  flushSink c h := by
    have hanswers := (outputInvariant_answers c.answers).flushSink c rfl
    have hsource := (outputInvariant_source c.source).flushSink c rfl
    rw [delivered, hanswers, hsource]
    exact h

theorem answers_read (c : Console) : c.read.2.answers = c.answers ++ [c.read.1] := by
  rw [answers, calls_read, List.reverse_cons, List.filterMap_append]
  rfl

theorem source_read (c : Console) : c.read.2.source = c.source.read.2.2 := by
  simp [read]

theorem answer_awaitRead (c : Console) (heeds : Bool) :
    (Machine.awaitRead c heeds).1 = c.source.read.1 := by
  cases heeds <;> rfl

theorem answers_awaitRead (c : Console) (heeds : Bool) :
    (Machine.awaitRead c heeds).2.answers = c.answers ++ [c.source.read.1] := by
  cases heeds
  · exact answers_read c
  · exact answers_read (c.await true)

theorem source_awaitRead (c : Console) (heeds : Bool) :
    (Machine.awaitRead c heeds).2.source = c.source.read.2.2 := by
  cases heeds
  · exact source_read c
  · exact source_read (c.await true)

end Console

namespace Machine

/-- What the next step finds on the input, if it reads. -/
def answer? (m : Machine) : Option ReadResult := m.reading?.map (·.source.read.1)

/-- The byte that the next step reads and stores, if it does. -/
def stored? (m : Machine) : Option UInt8 := m.answer?.bind ReadResult.byte?

variable {m last : Machine} {fuel : Nat} {actions : List Action}

/-- **A `,` that reads** moves on, and stores what its read has delivered. -/
theorem step_of_answer {a : ReadResult} (h : m.answer? = some a) :
    m.program.opAt? m.ip = some .input ∧ ∃ c, m.console.flush = (.ok (), c) ∧
      c.source.read.1 = a ∧ m.step = (.ok .next,
        { m.next.withConsole (awaitRead c m.heeds).2 with tape := received m.tape a }) := by
  obtain ⟨c', hreading, rfl⟩ := Option.map_eq_some_iff.1 h
  obtain ⟨hc, hop, c, hf, hq, rfl⟩ := reading?_eq_some_iff.1 hreading
  obtain ⟨b, hb, hinput⟩ := Program.opAt?_eq_some_iff.1 hop
  refine ⟨hop, c, hf, rfl, ?_⟩
  have hread : awaitRead c m.heeds = (c.source.read.1, (awaitRead c m.heeds).2) :=
    Prod.ext (Console.answer_awaitRead c m.heeds) rfl
  rw [step_of_byte hc hb, hinput, execute, inputCell_of_read hf hq hread]
  rfl

/-- **A `,` that does not read** leaves the tape alone, as one does whose flush fails. -/
theorem tape_step_of_unanswered (hop : m.program.opAt? m.ip = some .input)
    (h : m.answer? = none) : m.step.2.tape = m.tape := by
  rcases step_cases m with ⟨-, hs⟩ | ⟨-, -, hs⟩ | ⟨b, hc, hb, hs⟩ <;> rw [hs]
  obtain ⟨b', hb', hinput⟩ := Program.opAt?_eq_some_iff.1 hop
  obtain rfl : b = b' := Option.some.inj (hb.symm.trans hb')
  rw [hinput, execute]
  rcases inputCell_cases m with ⟨_, _, -, heq⟩ | ⟨_, -, -, heq⟩ | ⟨c, _, _, hf, hq, -, -⟩
  · rw [heq]
    rfl
  · rw [heq]
    rfl
  · -- a read would have an answer
    have hsome := reading?_eq_some_iff.2 ⟨hc, hop, c, hf, hq, rfl⟩
    rw [answer?, hsome] at h
    cases h

/-- **A step adds what it reads** to the answers of the input. -/
theorem answers_step (m : Machine) :
    m.step.2.console.answers = m.console.answers ++ m.answer?.toList := by
  cases h : m.answer? with
  | none =>
    have hnone : m.reading? = none := Option.map_eq_none_iff.1 h
    have hsame := console_step_of_none (Console.outputInvariant_answers m.console.answers) hnone rfl
    simpa using hsame
  | some a =>
    obtain ⟨-, c, hf, rfl, hs⟩ := step_of_answer h
    -- the flush before the read finds nothing on the input
    have hflush := (Console.outputInvariant_answers m.console.answers).flush rfl
    rw [hf] at hflush
    rw [hs]
    calc (awaitRead c m.heeds).2.answers
        = c.answers ++ [c.source.read.1] := Console.answers_awaitRead c m.heeds
      _ = m.console.answers ++ [c.source.read.1] := by rw [hflush]

theorem answers_flush (m : Machine) : m.flush.2.console.answers = m.console.answers := by
  have hflush := (Console.outputInvariant_answers m.console.answers).flush rfl
  unfold flush
  rcases hf : m.console.flush with ⟨_ | _, c⟩ <;> rw [hf] at hflush <;> exact hflush

theorem filterMap_answers (trail : List Machine) :
    (trail.flatMap fun m => m.answer?.toList).filterMap ReadResult.byte? =
      trail.filterMap stored? := by
  induction trail with
  | nil => rfl
  | cons m rest ih =>
    rw [List.flatMap_cons, List.filterMap_append, ih]
    cases h : m.answer? with
    | none => simp [stored?, h]
    | some a => cases hb : a.byte? <;> simp [stored?, h, hb]

/-- **The bytes delivered in a session** are those that its steps store. -/
theorem delivered_performAll {answers : List Answer}
    (h : m.performAll fuel actions = some (answers, last)) :
    last.console.delivered =
      m.console.delivered ++ (m.trail fuel actions).filterMap stored? := by
  have hlog := log_performAll (fun m => m.console.answers) (fun m => m.answer?.toList)
    answers_step answers_flush (fun _ => rfl) h
  rw [Console.delivered, hlog, List.filterMap_append, filterMap_answers]
  rfl

/-- **The bytes delivered up to a step** of a session are those that its earlier steps store. -/
theorem delivered_trail {before later : List Machine} {mid : Machine}
    (h : m.trail fuel actions = before ++ mid :: later) :
    mid.console.delivered = m.console.delivered ++ before.filterMap stored? := by
  have hlog := log_trail (fun m => m.console.answers) (fun m => m.answer?.toList)
    answers_step answers_flush (fun _ => rfl) h
  rw [Console.delivered, hlog, List.filterMap_append, filterMap_answers]
  rfl

/-- **The bytes delivered and the bytes left**, in this order, are those of the input. -/
theorem invariant_bytes (heeds : Bool) (bytes : List UInt8) :
    Invariant fun m => m.heeds = heeds ∧ m.console.delivered ++ m.console.source.bytes = bytes := by
  refine .of_console (Console.outputInvariant_bytes bytes) ?_ fun _ h => h
  intro c h _
  have hone : [c.source.read.1].filterMap ReadResult.byte? = c.source.read.1.byte?.toList := by
    cases hb : c.source.read.1.byte? <;> simp [hb]
  calc (awaitRead c heeds).2.delivered ++ (awaitRead c heeds).2.source.bytes
      = c.delivered ++ (c.source.read.1.byte?.toList ++ c.source.read.2.2.bytes) := by
        rw [Console.delivered, Console.answers_awaitRead, Console.source_awaitRead,
          List.filterMap_append, hone, List.append_assoc]
        rfl
    _ = c.delivered ++ c.source.bytes := by rw [← Source.bytes_read]
    _ = bytes := h

/-- **What a step does to the tape on account of the input**: a `,` stores the byte that its read
delivers in the cell under the cursor; any other `,` leaves the tape alone, and completes if it has
read at all. -/
theorem step_input_cases (m : Machine) :
    (∀ a, m.answer? = some a → m.program.opAt? m.ip = some .input ∧ m.step.1 = .ok .next) ∧
    (∀ b, m.stored? = some b → m.step.2.tape = m.tape.write b) ∧
    (m.program.opAt? m.ip = some .input → m.stored? = none → m.step.2.tape = m.tape) := by
  refine ⟨?_, ?_, ?_⟩
  · intro a ha
    obtain ⟨hop, c, -, -, hs⟩ := step_of_answer ha
    exact ⟨hop, by rw [hs]⟩
  · intro b hb
    obtain ⟨a, ha, hbyte⟩ := Option.bind_eq_some_iff.1 hb
    obtain ⟨-, c, -, -, hs⟩ := step_of_answer ha
    rw [hs]
    cases a with
    | byte b' =>
      cases hbyte
      rfl
    | endOfInput => cases hbyte
    | failed e => cases hbyte
  · intro hop hnone
    cases ha : m.answer? with
    | none => exact tape_step_of_unanswered hop ha
    | some a =>
      obtain ⟨-, c, -, -, hs⟩ := step_of_answer ha
      rw [stored?, ha] at hnone
      rw [hs]
      cases a with
      | byte b => cases hnone
      | endOfInput => rfl
      | failed e => rfl

/-- **Input is consumed once and in order, and failed reads are invisible.** Let any session be
given, with any program, tape and sink, and with any input: it may hold bytes, ends of input, also
with items behind them, failures and cancels.

Each of its steps that reads is at a `,`, makes one read, and completes. If the read delivers a
byte, the step writes this byte to the cell under the cursor, and does nothing else to the tape.
If the read finds the end of input or fails, or if the `,` makes no read since its flush fails or
it is asked to stop, the tape stays as it is.

Before each step, and at the end, the bytes that the reads have delivered so far are in order the
bytes that the steps so far have stored; with the bytes left behind them they are the input's.

With any of its failures replaced by ends of input, the input leaves the session as it is: the
answers, the results of all steps, and all states, but for what failed reads are called.

If no read delivers a byte, as when every read fails, the session is the same on the input that
has nothing but its cancels; and on the empty input, if no read raises the flag. -/
theorem input_is_consumed_in_order (program : Program) (tape : Tape) (source : Source) (sink : Sink)
    (capacity : Option Nat) (heeds : Bool) (fuel : Nat) (actions : List Action) :
    let m := start program tape (.make source sink capacity) heeds
    (∀ mid ∈ m.trail fuel actions,
      mid.step.2.console.answers = mid.console.answers ++ mid.answer?.toList ∧
      (∀ a, mid.answer? = some a →
        mid.program.opAt? mid.ip = some .input ∧ mid.step.1 = .ok .next) ∧
      (∀ b, mid.stored? = some b → mid.step.2.tape = mid.tape.write b) ∧
      (mid.program.opAt? mid.ip = some .input → mid.stored? = none →
        mid.step.2.tape = mid.tape)) ∧
    (∀ (before : List Machine) (mid : Machine) (later : List Machine),
      m.trail fuel actions = before ++ mid :: later →
      mid.console.delivered = before.filterMap stored? ∧
      mid.console.delivered ++ mid.console.source.bytes = source.bytes) ∧
    (∀ answers last, m.performAll fuel actions = some (answers, last) →
      last.console.delivered = (m.trail fuel actions).filterMap stored? ∧
      last.console.delivered ++ last.console.source.bytes = source.bytes) ∧
    (∀ which past, Alike withoutFailures fuel actions
      (start program tape (.make (source.mend which past) sink capacity) heeds) m) ∧
    ((∀ mid ∈ m.trail fuel actions, mid.stored? = none) →
      Alike forgetInput fuel actions
        (start program tape (.make source.emptied sink capacity) heeds) m ∧
      ((∀ mid ∈ m.trail fuel actions, ∀ c, mid.reading? = some c → c.source.read.2.1 = false) →
        Alike forgetInput fuel actions
          (start program tape (.make (.ofBytes []) sink capacity) heeds) m)) := by
  intro m
  have hbytes : m.heeds = heeds ∧
      m.console.delivered ++ m.console.source.bytes = source.bytes := ⟨rfl, rfl⟩
  have hinvariant := invariant_bytes heeds source.bytes
  refine ⟨?_, ?_, ?_, ?_, ?_⟩
  · intro mid _
    exact ⟨answers_step mid, step_input_cases mid⟩
  · intro before mid later h
    have hmid : mid ∈ m.trail fuel actions := by
      rw [h]
      simp
    exact ⟨delivered_trail h, (hinvariant.trail hbytes mid hmid).2⟩
  · intro answers last h
    exact ⟨delivered_performAll h, (hinvariant.performAll hbytes h).2⟩
  · exact alike_mend program tape source sink capacity heeds fuel actions
  · intro hnone
    have hread : ∀ mid ∈ m.trail fuel actions, ∀ c, mid.reading? = some c →
        c.source.read.1.byte? = none := by
      intro mid hmid c hc
      have hstored := hnone mid hmid
      rwa [stored?, answer?, hc] at hstored
    constructor
    · exact alike_emptied program tape source sink capacity heeds hread
    · intro hquiet
      exact alike_empty program tape source sink capacity heeds
        fun mid hmid c hc => ⟨hread mid hmid c hc, hquiet mid hmid c hc⟩

/-- Two bytes with a failure and an end of input between them reach the tape in order; and an input
that always fails is like none. -/
theorem input_is_consumed_in_order_of_failures :
    let m := start (.ofString ",>,>,>,") (.blank 4)
      (.make ⟨[.byte 65, .fail (.system 5), .endOfInput, .byte 66], none⟩ .accepting none) true
    let broken := start (.ofString "+,.") (.blank 1)
      (.make ⟨[], some (.system 5)⟩ .accepting none) true
    (∃ answers last, m.performAll 9 [.run] = some (answers, last) ∧
      last.console.delivered = [65, 66] ∧ last.tape.cells = #[65, 0, 0, 66]) ∧
    Alike forgetInput 9 [.run]
      (start (.ofString "+,.") (.blank 1) (.make (.ofBytes []) .accepting none) true) broken := by
  intro m broken
  obtain ⟨-, -, hconsumed, -, -⟩ := input_is_consumed_in_order (.ofString ",>,>,>,") (.blank 4)
    ⟨[.byte 65, .fail (.system 5), .endOfInput, .byte 66], none⟩ .accepting none true 9 [.run]
  obtain ⟨-, -, -, -, hsilent⟩ := input_is_consumed_in_order (.ofString "+,.") (.blank 1)
    ⟨[], some (.system 5)⟩ .accepting none true 9 [.run]
  have hend : m.performAll 9 [.run] = some ([.ran (.ok ())], (m.after 7).flush.2) := by cbv
  have hstored : (m.trail 9 [.run]).filterMap stored? = [65, 66] := by cbv
  have hcells : (m.after 7).flush.2.tape.cells = #[65, 0, 0, 66] := by cbv
  have hnone : (broken.trail 9 [.run]).filterMap stored? = [] := by cbv
  have hcancels : (broken.trail 9 [.run]).all
      (fun mid => mid.reading?.all fun c => !c.source.read.2.1) = true := by cbv
  have hquiet : ∀ mid ∈ broken.trail 9 [.run], ∀ c, mid.reading? = some c →
      c.source.read.2.1 = false := by
    intro mid hmid c hc
    have h := List.all_eq_true.1 hcancels mid hmid
    rw [hc] at h
    simpa using h
  refine ⟨⟨_, _, hend, ?_, hcells⟩, (hsilent (List.filterMap_eq_nil_iff.1 hnone)).2 hquiet⟩
  rw [(hconsumed _ _ hend).1, hstored]

end Machine

end Brainfuck
