import Brainfuck.Proofs.Session

/-!
# Streams without cancels

The scripts of the streams say in which calls the cancel flag is raised. Without these cancels
the same calls do the same, so that two runs can be compared of which only one is cancelled.

* `Sink.withoutCancels`, `Source.withoutCancels`, `Console.withoutCancels`: no call raises the
  flag, and the flag is down.
* `Console.outputMap_withoutCancels`, `Console.read_withoutCancels`: each operation answers the
  same, and leaves the same behind.
* `Machine.execute_withoutCancels`: so does each instruction, but for a `,` whose flush raises the
  flag.
-/

namespace Brainfuck

/-- The item that accepts or fails alike, and raises no flag. -/
def WriteItem.withoutCancel (item : WriteItem) : WriteItem := { item with cancels := false }

/-- The item that succeeds or fails alike, and raises no flag. -/
def FlushItem.withoutCancel (item : FlushItem) : FlushItem := { item with cancels := false }

/-- The call as it is made while the flag is down. -/
def Call.withoutCancel : Call → Call
  | .read awaiting _ answer => .read awaiting false answer
  | call => call

namespace Sink

/-- The sink of the same answers that never raises the flag. -/
def withoutCancels (s : Sink) : Sink :=
  { s with
    writes := s.writes.map .withoutCancel
    flushes := s.flushes.map .withoutCancel }

theorem nextWrite_withoutCancels (s : Sink) :
    s.withoutCancels.nextWrite = s.nextWrite.withoutCancel := by
  rcases s with ⟨_ | ⟨item, rest⟩, flushes, _ | r, accepted⟩ <;> rfl

theorem nextFlush_withoutCancels (s : Sink) :
    s.withoutCancels.nextFlush = s.nextFlush.withoutCancel := by
  rcases s with ⟨writes, _ | ⟨item, rest⟩, refusal, accepted⟩ <;> rfl

theorem take_withoutCancels (s : Sink) (bytes : Array UInt8) :
    s.withoutCancels.take bytes = (s.take bytes).withoutCancels := by
  simp [take, withoutCancels]

theorem write_withoutCancels (s : Sink) (bytes : Array UInt8) :
    s.withoutCancels.write bytes =
      ((s.write bytes).1, false, (s.write bytes).2.2.withoutCancels) := by
  rw [write, nextWrite_withoutCancels, write]
  rcases s.nextWrite with ⟨_ | _ | _, _⟩ <;>
    simp [WriteItem.withoutCancel, take_withoutCancels]

theorem flush_withoutCancels (s : Sink) :
    s.withoutCancels.flush = (s.flush.1, false, s.flush.2.2.withoutCancels) := by
  rw [flush, nextFlush_withoutCancels, flush]
  rcases s.nextFlush with ⟨_ | _, _⟩ <;> simp [FlushItem.withoutCancel, withoutCancels]

end Sink

namespace Source

/-- The input that finds the same and never raises the flag. -/
def withoutCancels (s : Source) : Source := { s with items := s.items.filter (· != .cancel) }

theorem readItems_withoutCancels (broken : Option IoError) (items : List InputItem) :
    readItems broken (items.filter (· != .cancel)) =
      ((readItems broken items).1, false, (readItems broken items).2.2.filter (· != .cancel)) := by
  induction items with
  | nil => rfl
  | cons item rest ih =>
    cases item with
    | cancel => simpa [readItems] using ih
    | byte b => simp [readItems]
    | endOfInput => simp [readItems]
    | fail e => simp [readItems]

theorem read_withoutCancels (s : Source) :
    s.withoutCancels.read = (s.read.1, false, s.read.2.2.withoutCancels) := by
  simp only [read, withoutCancels, readItems_withoutCancels]

end Source

namespace Console

/-- The console whose streams never raise the flag, with the flag down and as if it always had
been. -/
def withoutCancels (c : Console) : Console where
  source := c.source.withoutCancels
  sink := c.sink.withoutCancels
  buffer := c.buffer
  flag := { c.flag with cancelled := false }
  calls := c.calls.map .withoutCancel

@[simp] theorem withoutCancels_cancelIf (c : Console) (b : Bool) :
    (c.cancelIf b).withoutCancels = c.withoutCancels := by
  cases b <;> rfl

/-- A write call is answered the same. -/
theorem offer_withoutCancels (c : Console) (bytes : Array UInt8) :
    c.withoutCancels.offer bytes = ((c.offer bytes).1, (c.offer bytes).2.withoutCancels) := by
  have hwrite := c.sink.write_withoutCancels bytes
  simp only [offer, withoutCancels_cancelIf]
  rw [show c.withoutCancels.sink = c.sink.withoutCancels from rfl, hwrite]
  rfl

theorem flushSink_withoutCancels (c : Console) :
    c.withoutCancels.flushSink = (c.flushSink.1, c.flushSink.2.withoutCancels) := by
  have hflush := c.sink.flush_withoutCancels
  simp only [flushSink, withoutCancels_cancelIf]
  rw [show c.withoutCancels.sink = c.sink.withoutCancels from rfl, hflush]
  rfl

theorem outputMap_withoutCancels : OutputMap withoutCancels where
  buffer_eq _ := rfl
  buffer _ _ := rfl
  offer := offer_withoutCancels
  flushSink := flushSink_withoutCancels

/-- **A flush** fares the same. -/
theorem flush_withoutCancels (c : Console) :
    c.withoutCancels.flush = (c.flush.1, c.flush.2.withoutCancels) :=
  outputMap_withoutCancels.flush c

/-- **A read** finds the same. -/
theorem read_withoutCancels (c : Console) :
    c.withoutCancels.read = (c.read.1, c.read.2.withoutCancels) := by
  have hread := c.source.read_withoutCancels
  simp only [read, withoutCancels_cancelIf]
  rw [show c.withoutCancels.source = c.source.withoutCancels from rfl, hread]
  rfl

theorem await_withoutCancels (c : Console) (waits : Bool) :
    c.withoutCancels.await waits = (c.await waits).withoutCancels := rfl

end Console

namespace Machine

/-- The machine on a console without cancels. -/
def withoutCancels (m : Machine) : Machine := m.withConsole m.console.withoutCancels

variable {m : Machine} {op : Opcode}

@[simp] theorem withoutCancels_cancel (m : Machine) : m.cancel.withoutCancels = m.withoutCancels :=
  rfl

theorem isCancelled_withoutCancels (m : Machine) : m.withoutCancels.isCancelled = false :=
  Bool.and_false _

theorem start_withoutCancels (program : Program) (tape : Tape) (source : Source) (sink : Sink)
    (capacity : Option Nat) (heeds : Bool) :
    (start program tape (.make source sink capacity) heeds).withoutCancels =
      start program tape (.make source.withoutCancels sink.withoutCancels capacity) heeds := rfl

theorem awaitRead_withoutCancels (c : Console) (heeds : Bool) :
    awaitRead c.withoutCancels heeds =
      ((awaitRead c heeds).1, (awaitRead c heeds).2.withoutCancels) := by
  cases heeds
  · exact c.read_withoutCancels
  · have hread := (c.await true).read_withoutCancels
    simp only [awaitRead, if_true, Console.await_withoutCancels, hread]

/-- A `,` does the same, unless the flag is up after its flush: it then makes no read. -/
theorem inputCell_withoutCancels (m : Machine) :
    m.withoutCancels.inputCell = (m.inputCell.1, m.inputCell.2.withoutCancels) ∨
    ∃ c, m.console.flush = (.ok (), c) ∧ (m.heeds && c.flag.cancelled) = true ∧
      m.inputCell = (.ok (), m.next.withConsole c) := by
  have hflush := m.console.flush_withoutCancels
  rcases inputCell_cases m with ⟨e, c, hf, h⟩ | ⟨c, hf, hq, h⟩ | ⟨c, answer, d, hf, -, hr, h⟩
  · left
    rw [hf] at hflush
    rw [h]
    exact inputCell_of_error hflush
  · exact .inr ⟨c, hf, hq, h⟩
  · left
    rw [hf] at hflush
    have hread := awaitRead_withoutCancels c m.heeds
    rw [hr] at hread
    have hsame := inputCell_of_read (m := m.withoutCancels) hflush (Bool.and_false _) hread
    rw [h, hsame]
    cases answer <;> rfl

/-- **An instruction does the same**, unless it is a `,` and the flag is up after its flush. -/
theorem execute_withoutCancels (op : Opcode) (m : Machine) :
    m.withoutCancels.execute op = ((m.execute op).1, (m.execute op).2.withoutCancels) ∨
    op = .input ∧ ∃ c, m.console.flush = (.ok (), c) ∧ (m.heeds && c.flag.cancelled) = true ∧
      m.execute op = (.ok (), m.next.withConsole c) := by
  by_cases hi : op = .input
  · subst hi
    rcases inputCell_withoutCancels m with h | h
    · exact .inl h
    · exact .inr ⟨rfl, h⟩
  · exact .inl (execute_mapConsole Console.outputMap_withoutCancels hi m)

/-- The flush at the end of a run does the same. -/
theorem flush_withoutCancels (m : Machine) :
    m.withoutCancels.flush = (m.flush.1, m.flush.2.withoutCancels) :=
  flush_mapConsole Console.outputMap_withoutCancels m

theorem finish_withoutCancels (result : Except RunError Unit) (m : Machine) :
    m.withoutCancels.finish result =
      ((m.finish result).1, (m.finish result).2.withoutCancels) := by
  cases result <;> simp [finish, flush_withoutCancels]

end Machine

end Brainfuck
