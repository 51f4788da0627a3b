import Brainfuck.IoError

/-!
# Output sinks

A sink accepts bytes, and keeps what it accepted. How its next calls behave is a script, one
item a call, with writes and flushes scripted apart; past the scripts it does all it is asked
to, unless it refuses every write for good. Whatever a call answers, the cancel flag may be raised
while it goes on, and the script says so.
-/

namespace Brainfuck

/-- What one write does with the bytes offered. -/
inductive WriteOutcome where
  /-- All bytes offered are accepted. -/
  | accept
  /-- At most the first `n` bytes are accepted. -/
  | acceptAtMost (n : Nat)
  /-- The write fails, and accepts nothing. -/
  | fail (e : IoError)
  deriving DecidableEq, Repr

/-- How one write behaves: what it does, and whether the cancel flag is raised in it. -/
structure WriteItem where
  outcome : WriteOutcome
  cancels : Bool
  deriving DecidableEq, Repr

namespace WriteItem

/-- All bytes offered are accepted. -/
def accept : WriteItem := ⟨.accept, false⟩

/-- At most the first `n` bytes are accepted. -/
def acceptAtMost (n : Nat) : WriteItem := ⟨.acceptAtMost n, false⟩

/-- The write fails, and accepts nothing. -/
def fail (e : IoError) : WriteItem := ⟨.fail e, false⟩

/-- The cancel flag is raised, and all bytes are accepted. -/
def cancel : WriteItem := ⟨.accept, true⟩

end WriteItem

/-- How one flush behaves: the error if it fails, and whether the cancel flag is raised in it. -/
structure FlushItem where
  failure : Option IoError
  cancels : Bool
  deriving DecidableEq, Repr

namespace FlushItem

/-- The flush succeeds. -/
def succeed : FlushItem := ⟨none, false⟩

/-- The flush fails. -/
def fail (e : IoError) : FlushItem := ⟨some e, false⟩

/-- The cancel flag is raised, and the flush succeeds. -/
def cancel : FlushItem := ⟨none, true⟩

end FlushItem

/-- The error of a sink that refuses every write. It is not an interruption: a write that is
interrupted each time would be repeated without end. -/
structure Refusal where
  error : IoError
  lasting : error.isInterrupted = false
  deriving DecidableEq

/-- A sink: its scripts, whether it refuses writes past the script, and what it accepted. -/
structure Sink where
  writes : List WriteItem
  flushes : List FlushItem
  refusal : Option Refusal
  accepted : Array UInt8
  deriving DecidableEq

namespace Sink

/-- The sink that accepts everything. -/
def accepting : Sink := ⟨[], [], none, #[]⟩

/-- A sink that has refused every write since it was made. -/
def refusing (r : Refusal) : Sink := ⟨[], [], some r, #[]⟩

/-- How the next write behaves. -/
def nextWrite (s : Sink) : WriteItem :=
  match s.writes with
  | item :: _ => item
  | [] =>
    match s.refusal with
    | none => .accept
    | some r => .fail r.error

/-- How the next flush behaves. -/
def nextFlush (s : Sink) : FlushItem := s.flushes.headD .succeed

/-- Moves on in the write script, with these bytes accepted. -/
def take (s : Sink) (bytes : Array UInt8) : Sink :=
  { s with writes := s.writes.tail, accepted := s.accepted ++ bytes }

/-- One write: the number of bytes accepted or the error, whether the cancel flag is raised in it,
and the sink after it. -/
def write (s : Sink) (bytes : Array UInt8) : Except IoError Nat × Bool × Sink :=
  match s.nextWrite.outcome with
  | .accept => (.ok bytes.size, s.nextWrite.cancels, s.take bytes)
  | .acceptAtMost n => (.ok (min n bytes.size), s.nextWrite.cancels, s.take (bytes.take n))
  | .fail e => (.error e, s.nextWrite.cancels, s.take #[])

/-- One flush: the error if it fails, whether the cancel flag is raised in it, and the sink after
it. -/
def flush (s : Sink) : Except IoError Unit × Bool × Sink :=
  let after := { s with flushes := s.flushes.tail }
  match s.nextFlush.failure with
  | none => (.ok (), s.nextFlush.cancels, after)
  | some e => (.error e, s.nextFlush.cancels, after)

/-- A write accepts no more bytes than it is offered. -/
theorem write_le {s s' : Sink} {bytes : Array UInt8} {n : Nat} {cancels : Bool}
    (h : s.write bytes = (.ok n, cancels, s')) : n ≤ bytes.size := by
  unfold write at h
  split at h <;> simp only [Prod.mk.injEq, Except.ok.injEq, reduceCtorEq, false_and] at h <;>
    omega

/-- A write never makes the script longer. -/
theorem length_writes_le (s : Sink) (bytes : Array UInt8) :
    (s.write bytes).2.2.writes.length ≤ s.writes.length := by
  unfold write
  split <;> simp [take]

/-- An interrupted write used up an item of the script. -/
theorem length_writes_lt {s s' : Sink} {bytes : Array UInt8} {e : IoError} {cancels : Bool}
    (h : s.write bytes = (.error e, cancels, s')) (he : e.isInterrupted = true) :
    s'.writes.length < s.writes.length := by
  unfold write at h
  split at h <;> simp only [Prod.mk.injEq, reduceCtorEq, false_and] at h
  rename_i e' hn
  obtain ⟨h1, -, rfl⟩ := h
  cases h1
  cases hw : s.writes with
  | cons item rest => simp [take, hw]
  | nil =>
    -- past the script an error is the lasting one, which is no interruption
    simp only [nextWrite, hw] at hn
    split at hn
    · cases hn
    · rename_i r _
      cases hn
      rw [r.lasting] at he
      cases he

end Sink

end Brainfuck
