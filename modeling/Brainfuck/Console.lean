import Brainfuck.Console.Source
import Brainfuck.Console.Sink

/-!
# The console

All that a run touches outside its own program and tape: an input, an output, a cancel flag
that anyone may raise, and the transcript of the calls made on the two streams. The output is
a sink, with or without a buffer in front of it.

* `Console.writeAll`: offers bytes to the sink until all are accepted or a write fails.
* `Console.put`: one byte of output, through the buffer.
* `Console.flush`: empties the buffer and flushes the sink.
* `Console.read`: one read of the input.
-/

namespace Brainfuck

instance (priority := 1100) instDecidableEqExcept {ε α : Type} [DecidableEq ε] [DecidableEq α] :
    DecidableEq (Except ε α)
  | .error e, .error e' => decidable_of_iff (e = e') ⟨congrArg _, Except.error.inj⟩
  | .ok a, .ok a' => decidable_of_iff (a = a') ⟨congrArg _, Except.ok.inj⟩
  | .error _, .ok _ => .isFalse nofun
  | .ok _, .error _ => .isFalse nofun

/-- A flag by which a run is asked to stop. It also tells whether the run waits in a read,
where the request cannot be noticed. -/
structure CancelFlag where
  cancelled : Bool := false
  awaitingInput : Bool := false
  deriving DecidableEq, Repr, Inhabited

/-- A call on one of the streams: whether the cancel flag told of a waiting read when the call
began, and what the call answered. -/
inductive Call where
  /-- A write, with the number of bytes offered. -/
  | write (awaiting : Bool) (offered : Nat) (answer : Except IoError Nat)
  | flush (awaiting : Bool) (answer : Except IoError Unit)
  /-- A read, with whether the flag was raised when it began. -/
  | read (awaiting cancelled : Bool) (answer : ReadResult)
  deriving DecidableEq

namespace Call

def isWrite : Call → Bool
  | .write .. => true
  | _ => false

def isFlush : Call → Bool
  | .flush .. => true
  | _ => false

def isRead : Call → Bool
  | .read .. => true
  | _ => false

/-- Did the cancel flag tell of a waiting read when the call began? -/
def awaiting : Call → Bool
  | .write a .. => a
  | .flush a _ => a
  | .read a .. => a

end Call

/-- Bytes held back on their way to the sink. -/
structure Buffer where
  capacity : Nat
  pending : Array UInt8
  deriving DecidableEq

/-- The buffer of this capacity that holds nothing. -/
def Buffer.empty (capacity : Nat) : Buffer := ⟨capacity, #[]⟩

/-- The streams and the flag of a run. -/
structure Console where
  source : Source
  sink : Sink
  /-- The buffer in front of the sink, if there is one. -/
  buffer : Option Buffer
  flag : CancelFlag
  /-- The calls made on the streams, the latest first. -/
  calls : List Call
  deriving DecidableEq

namespace Console

/-- A console whose flag is down and whose streams have not been used. -/
def make (source : Source) (sink : Sink) (capacity : Option Nat) : Console where
  source
  sink
  buffer := capacity.map Buffer.empty
  flag := {}
  calls := []

/-- The bytes that are in the buffer. -/
def pending (c : Console) : Array UInt8 :=
  match c.buffer with
  | none => #[]
  | some b => b.pending

/-- Raises the cancel flag. -/
def cancel (c : Console) : Console := { c with flag := { c.flag with cancelled := true } }

/-- Raises the cancel flag if a call did so. -/
def cancelIf (c : Console) (cancels : Bool) : Console := if cancels then c.cancel else c

/-- Tells through the flag whether the run waits in a read. -/
def await (c : Console) (waits : Bool) : Console :=
  { c with flag := { c.flag with awaitingInput := waits } }

/-- One write call on the sink. -/
def offer (c : Console) (bytes : Array UInt8) : Except IoError Nat × Console :=
  let (answer, cancels, sink) := c.sink.write bytes
  (answer, { c with
    sink
    calls := .write c.flag.awaitingInput bytes.size answer :: c.calls }.cancelIf cancels)

/-- One flush call on the sink. -/
def flushSink (c : Console) : Except IoError Unit × Console :=
  let (answer, cancels, sink) := c.sink.flush
  (answer, { c with
    sink
    calls := .flush c.flag.awaitingInput answer :: c.calls }.cancelIf cancels)

@[simp] theorem sink_cancelIf (c : Console) (b : Bool) : (c.cancelIf b).sink = c.sink := by
  cases b <;> rfl

theorem offer_fst (c : Console) (bytes : Array UInt8) :
    (c.offer bytes).1 = (c.sink.write bytes).1 := rfl

@[simp] theorem sink_offer (c : Console) (bytes : Array UInt8) :
    (c.offer bytes).2.sink = (c.sink.write bytes).2.2 := by
  simp [offer]

/-- An interrupted offer used up an item of the sink's script. -/
theorem length_writes_offer_lt {c after : Console} {bytes : Array UInt8} {e : IoError}
    (h : c.offer bytes = (.error e, after)) (he : e.isInterrupted = true) :
    after.sink.writes.length < c.sink.writes.length := by
  have h1 : (c.sink.write bytes).1 = .error e := by rw [← offer_fst, h]
  have h2 : after.sink = (c.sink.write bytes).2.2 := by rw [← sink_offer, h]
  rw [h2]
  exact Sink.length_writes_lt (Prod.ext h1 rfl) he

/-- An offer that is answered takes no more than it is given, and never makes the sink's
script longer. -/
theorem offer_le {c after : Console} {bytes : Array UInt8} {n : Nat}
    (h : c.offer bytes = (.ok n, after)) :
    n ≤ bytes.size ∧ after.sink.writes.length ≤ c.sink.writes.length := by
  have h1 : (c.sink.write bytes).1 = .ok n := by rw [← offer_fst, h]
  have h2 : after.sink = (c.sink.write bytes).2.2 := by rw [← sink_offer, h]
  rw [h2]
  exact ⟨Sink.write_le (Prod.ext h1 rfl), Sink.length_writes_le _ _⟩

/-- Offers the bytes to the sink until it has accepted all of them. An interrupted write is
repeated; a write that accepts nothing ends in the error `stalled`. On an error the bytes not
yet accepted are given back. -/
def writeAll (stalled : IoError) (c : Console) (bytes : Array UInt8) :
    Except IoError Unit × Array UInt8 × Console :=
  if bytes.isEmpty then (.ok (), #[], c)
  else
    match h : c.offer bytes with
    | (.error e, after) =>
      if he : e.isInterrupted = true then
        have := length_writes_offer_lt h he
        writeAll stalled after bytes
      else (.error e, bytes, after)
    | (.ok n, after) =>
      if hn : n = 0 then (.error stalled, bytes, after)
      else
        have := offer_le h
        have : (bytes.extract n bytes.size).size < bytes.size := by
          rw [Array.size_extract]
          omega
        writeAll stalled after (bytes.extract n bytes.size)
termination_by c.sink.writes.length + bytes.size

/-- The error of a byte that the sink would not accept. -/
def wholeStalled : IoError := .worded .writeZero "failed to write whole buffer"

/-- The error of buffered bytes that the sink would not accept. -/
def bufferStalled : IoError := .worded .writeZero "failed to write the buffered data"

/-- Passes the buffered bytes on to the sink. On an error the bytes not accepted stay. -/
def drain (c : Console) : Except IoError Unit × Console :=
  match c.buffer with
  | none => (.ok (), c)
  | some b =>
    let (answer, left, after) := { c with buffer := some { b with pending := #[] } }.writeAll
      bufferStalled b.pending
    (answer, { after with buffer := some { b with pending := left } })

/-- Writes one byte straight to the sink. -/
def putThrough (c : Console) (byte : UInt8) : Except IoError Unit × Console :=
  let (answer, _, after) := c.writeAll wholeStalled #[byte]
  (answer, after)

/-- Stores one byte in the buffer, or writes it through if no buffer of two bytes or more is
there. -/
def store (c : Console) (byte : UInt8) : Except IoError Unit × Console :=
  match c.buffer with
  | none => c.putThrough byte
  | some b =>
    if b.capacity ≤ 1 then c.putThrough byte
    else (.ok (), { c with buffer := some { b with pending := b.pending.push byte } })

/-- Is there a buffer without room for a byte? -/
def isFull (c : Console) : Bool :=
  match c.buffer with
  | none => false
  | some b => b.capacity ≤ b.pending.size

/-- One byte of output. A full buffer is drained first; if that fails, the byte is dropped. -/
def put (c : Console) (byte : UInt8) : Except IoError Unit × Console :=
  if c.isFull then
    match c.drain with
    | (.error e, after) => (.error e, after)
    | (.ok _, after) => after.store byte
  else c.store byte

/-- Drains the buffer and flushes the sink. A drain that fails leaves the sink unflushed. -/
def flush (c : Console) : Except IoError Unit × Console :=
  match c.drain with
  | (.error e, after) => (.error e, after)
  | (.ok _, after) => after.flushSink

/-- One read of the input. -/
def read (c : Console) : ReadResult × Console :=
  let (answer, cancels, source) := c.source.read
  (answer, { c with
    source
    calls := .read c.flag.awaitingInput c.flag.cancelled answer :: c.calls }.cancelIf cancels)

end Console

end Brainfuck
