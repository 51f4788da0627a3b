import Brainfuck.Console

/-!
# What reaches the sink

One byte of output may cause any number of calls on the sink: a full buffer is drained, short
and interrupted writes are repeated, and a call may fail at any point. Whatever happens, the
bytes that the sink has accepted and the bytes that are still in the buffer, in this order, are
the bytes printed so far.

* `Console.served_of_put`: a byte that is put is added to the bytes printed, unless the call
  fails, which adds nothing.
* `Console.served_of_flush`, `Console.pending_of_flush`: a flush moves bytes on and keeps them.
* `Console.ok_of_put`, `Console.ok_of_flush`: a sink that works, in parts or after interruptions,
  is never in the way.
* `Console.OutputInvariant`: what single calls on the sink keep, `put` and `flush` keep.
* `Console.OutputMap`: what single calls on the sink commute with, `put` and `flush` commute with.
-/

namespace Brainfuck

/-- Does the write let output go on? One that is interrupted is repeated; any other failure,
and a write that accepts nothing, ends the output of its bytes. -/
def WriteOutcome.isHarmless : WriteOutcome → Bool
  | .accept => true
  | .acceptAtMost n => n != 0
  | .fail e => e.isInterrupted

namespace Sink

/-- No call of the script raises the cancel flag. -/
def NeverCancels (s : Sink) : Prop :=
  (∀ item ∈ s.writes, item.cancels = false) ∧ ∀ item ∈ s.flushes, item.cancels = false

instance (s : Sink) : Decidable s.NeverCancels :=
  inferInstanceAs (Decidable (_ ∧ _))

/-- Every call does all that it is asked to. -/
structure Obliging (s : Sink) : Prop where
  writes : s.writes = []
  flushes : s.flushes = []
  refusal : s.refusal = none

theorem obliging_accepting : accepting.Obliging := ⟨rfl, rfl, rfl⟩

/-- No flush of the script fails. -/
def NeverFailsFlush (s : Sink) : Prop := ∀ item ∈ s.flushes, item.failure = none

/-- Every byte is accepted in the end: writes may be short or interrupted, and no flush fails. -/
structure Works (s : Sink) : Prop where
  writes : ∀ item ∈ s.writes, item.outcome.isHarmless = true
  flushes : s.NeverFailsFlush
  refusal : s.refusal = none

variable {s : Sink}

theorem neverCancels_take (h : s.NeverCancels) (bytes : Array UInt8) :
    (s.take bytes).NeverCancels :=
  ⟨fun item hm => h.1 item (List.mem_of_mem_tail hm), h.2⟩

theorem Obliging.neverCancels (h : s.Obliging) : s.NeverCancels := by
  constructor
  · simp [h.writes]
  · simp [h.flushes]

theorem Obliging.take (h : s.Obliging) (bytes : Array UInt8) : (s.take bytes).Obliging :=
  ⟨by simp [Sink.take, h.writes], h.flushes, h.refusal⟩

/-- How the next write behaves: as the script says, or past it as the sink does for good. -/
theorem nextWrite_cases (s : Sink) :
    s.nextWrite ∈ s.writes ∨ (s.refusal = none ∧ s.nextWrite = .accept) ∨
      ∃ r, s.refusal = some r ∧ s.nextWrite = .fail r.error := by
  unfold nextWrite
  split
  · rename_i item rest hw
    exact .inl (by simp [hw])
  · cases s.refusal with
    | none => exact .inr (.inl ⟨rfl, rfl⟩)
    | some r => exact .inr (.inr ⟨r, rfl, rfl⟩)

/-- How the next flush behaves: as the script says, or past it well. -/
theorem nextFlush_cases (s : Sink) : s.nextFlush ∈ s.flushes ∨ s.nextFlush = .succeed := by
  unfold nextFlush
  cases s.flushes with
  | nil => exact .inr rfl
  | cons item rest => exact .inl List.mem_cons_self

theorem cancels_nextWrite (h : s.NeverCancels) : s.nextWrite.cancels = false := by
  rcases nextWrite_cases s with hitem | ⟨-, hitem⟩ | ⟨r, -, hitem⟩
  · exact h.1 _ hitem
  · rw [hitem]
    rfl
  · rw [hitem]
    rfl

theorem cancels_nextFlush (h : s.NeverCancels) : s.nextFlush.cancels = false := by
  rcases nextFlush_cases s with hitem | hitem
  · exact h.2 _ hitem
  · rw [hitem]
    rfl

/-- The number of bytes that a write has accepted: none if it failed. -/
def countOf : Except IoError Nat → Nat
  | .ok n => n
  | .error _ => 0

/-- A write accepts a part of the bytes from their front. -/
theorem accepted_write (s : Sink) (bytes : Array UInt8) :
    (s.write bytes).2.2.accepted = s.accepted ++ bytes.take (countOf (s.write bytes).1) := by
  unfold write
  split <;> simp [take, countOf]
  -- a short write is cut to what is offered, which changes no prefix
  rename_i n _
  rcases Nat.le_total n bytes.size with h | h
  · rw [Nat.min_eq_left h]
  · rw [Nat.min_eq_right h, Array.extract_eq_self_of_le h]
    simp

theorem cancels_write (s : Sink) (bytes : Array UInt8) :
    (s.write bytes).2.1 = s.nextWrite.cancels := by
  unfold write
  split <;> rfl

theorem neverCancels_write (h : s.NeverCancels) (bytes : Array UInt8) :
    (s.write bytes).2.1 = false ∧ (s.write bytes).2.2.NeverCancels := by
  rw [cancels_write]
  refine ⟨cancels_nextWrite h, ?_⟩
  unfold write
  split <;> exact neverCancels_take h _

/-- A flush moves on in the flush script, whatever it answers. -/
theorem sink_flush (s : Sink) : s.flush.2.2 = { s with flushes := s.flushes.tail } := by
  unfold flush
  split <;> rfl

theorem cancels_flush (s : Sink) : s.flush.2.1 = s.nextFlush.cancels := by
  unfold flush
  split <;> rfl

theorem neverCancels_flush (h : s.NeverCancels) :
    s.flush.2.1 = false ∧ s.flush.2.2.NeverCancels := by
  rw [cancels_flush, sink_flush]
  exact ⟨cancels_nextFlush h, h.1, fun item hm => h.2 item (List.mem_of_mem_tail hm)⟩

theorem Obliging.write (h : s.Obliging) (bytes : Array UInt8) :
    s.write bytes = (.ok bytes.size, false, s.take bytes) := by
  simp [Sink.write, nextWrite, WriteItem.accept, h.writes, h.refusal]

theorem Obliging.flush (h : s.Obliging) : s.flush = (.ok (), false, s) := by
  obtain ⟨writes, flushes, refusal, accepted⟩ := s
  have hf : flushes = [] := h.flushes
  subst hf
  rfl

theorem Obliging.works (h : s.Obliging) : s.Works := by
  refine ⟨?_, ?_, h.refusal⟩
  · simp [h.writes]
  · simp [NeverFailsFlush, h.flushes]

/-- A write of a sink that works accepts something or is interrupted. -/
theorem Works.write (h : s.Works) (bytes : Array UInt8) :
    (∀ n, (s.write bytes).1 = .ok n → n = 0 → bytes = #[]) ∧
    (∀ e, (s.write bytes).1 = .error e → e.isInterrupted = true) ∧
    (s.write bytes).2.2.Works := by
  have htake (taken : Array UInt8) : (s.take taken).Works :=
    ⟨fun item hm => h.writes item (List.mem_of_mem_tail hm), h.flushes, h.refusal⟩
  have hnext : s.nextWrite.outcome.isHarmless = true := by
    rcases nextWrite_cases s with hitem | ⟨-, hitem⟩ | ⟨r, hr, -⟩
    · exact h.writes s.nextWrite hitem
    · rw [hitem]
      rfl
    · rw [h.refusal] at hr
      cases hr
  unfold Sink.write
  split <;> rename_i hitem <;> rw [hitem] at hnext
  · exact ⟨by simp, by simp, htake _⟩
  · rename_i n
    have hn : n ≠ 0 := by simpa [WriteOutcome.isHarmless] using hnext
    refine ⟨?_, by simp, htake _⟩
    rintro k hk rfl
    have hmin : min n bytes.size = 0 := Except.ok.inj hk
    exact Array.eq_empty_of_size_eq_zero (by omega)
  · exact ⟨by simp, by rintro e ⟨⟩; exact hnext, htake _⟩

/-- A flush of a script of which no flush fails. -/
theorem NeverFailsFlush.flush (h : s.NeverFailsFlush) :
    s.flush.1 = .ok () ∧ s.flush.2.2.NeverFailsFlush := by
  have hnext : s.nextFlush.failure = none := by
    rcases nextFlush_cases s with hitem | hitem
    · exact h _ hitem
    · rw [hitem]
      rfl
  rw [sink_flush]
  refine ⟨?_, fun item hm => h item (List.mem_of_mem_tail hm)⟩
  rw [Sink.flush, hnext]

theorem Works.flush (h : s.Works) : s.flush.1 = .ok () ∧ s.flush.2.2.Works := by
  obtain ⟨hok, hflushes⟩ := h.flushes.flush
  rw [sink_flush] at hflushes ⊢
  exact ⟨hok, h.writes, hflushes, h.refusal⟩

theorem accepted_flush (s : Sink) : s.flush.2.2.accepted = s.accepted := by
  rw [sink_flush]

end Sink

namespace Call

/-- Did the call let output go on? A write that is interrupted is repeated; any other error, and
a write that accepts nothing, ends the output of the byte. -/
def isHarmless : Call → Bool
  | .write _ _ (.ok n) => n != 0
  | .write _ _ (.error e) => e.isInterrupted
  | .flush _ (.ok _) => true
  | .flush _ (.error _) => false
  | .read .. => true

end Call

namespace Console

/-- The bytes printed so far: what the sink has accepted, and then what the buffer holds. -/
def sent (c : Console) : Array UInt8 := c.sink.accepted ++ c.pending

/-- The second console comes from the first by calls on the output alone. -/
structure OnlyOutput (c after : Console) : Prop where
  source : after.source = c.source
  awaiting : after.flag.awaitingInput = c.flag.awaitingInput
  calls : c.calls <:+ after.calls
  quiet : c.sink.NeverCancels → after.sink.NeverCancels ∧ after.flag = c.flag
  obliging : c.sink.Obliging → after.sink.Obliging
  works : c.sink.Works → after.sink.Works

theorem OnlyOutput.refl (c : Console) : c.OnlyOutput c :=
  ⟨rfl, rfl, List.suffix_rfl, fun h => ⟨h, rfl⟩, id, id⟩

theorem OnlyOutput.trans {a b c : Console} (h : a.OnlyOutput b) (h' : b.OnlyOutput c) :
    a.OnlyOutput c where
  source := h'.source.trans h.source
  awaiting := h'.awaiting.trans h.awaiting
  calls := h.calls.trans h'.calls
  quiet hq := by
    obtain ⟨hq', hf⟩ := h.quiet hq
    obtain ⟨hq'', hf'⟩ := h'.quiet hq'
    exact ⟨hq'', hf'.trans hf⟩
  obliging ho := h'.obliging (h.obliging ho)
  works hw := h'.works (h.works hw)

@[simp] theorem source_cancelIf (c : Console) (b : Bool) : (c.cancelIf b).source = c.source := by
  cases b <;> rfl

@[simp] theorem buffer_cancelIf (c : Console) (b : Bool) : (c.cancelIf b).buffer = c.buffer := by
  cases b <;> rfl

@[simp] theorem calls_cancelIf (c : Console) (b : Bool) : (c.cancelIf b).calls = c.calls := by
  cases b <;> rfl

@[simp] theorem awaitingInput_cancelIf (c : Console) (b : Bool) :
    (c.cancelIf b).flag.awaitingInput = c.flag.awaitingInput := by
  cases b <;> rfl

/-- Replacing the buffer is no call at all. -/
theorem OnlyOutput.with_buffer {c after : Console} {b b' : Option Buffer}
    (h : ({ c with buffer := b } : Console).OnlyOutput after) :
    c.OnlyOutput { after with buffer := b' } :=
  ⟨h.source, h.awaiting, h.calls, h.quiet, h.obliging, h.works⟩

theorem onlyOutput_offer (c : Console) (bytes : Array UInt8) :
    c.OnlyOutput (c.offer bytes).2 where
  source := by simp [offer]
  awaiting := by simp [offer]
  calls := by simp [offer]
  quiet h := by
    obtain ⟨hc, hs⟩ := Sink.neverCancels_write h bytes
    rw [sink_offer]
    exact ⟨hs, by simp [offer, hc, cancelIf]⟩
  obliging h := by
    rw [sink_offer, h.write]
    exact h.take bytes
  works h := by
    obtain ⟨-, -, hw⟩ := h.write bytes
    rwa [sink_offer]

theorem onlyOutput_flushSink (c : Console) : c.OnlyOutput c.flushSink.2 where
  source := by simp [flushSink]
  awaiting := by simp [flushSink]
  calls := by simp [flushSink]
  quiet h := by
    obtain ⟨hc, hs⟩ := Sink.neverCancels_flush h
    simp only [flushSink, sink_cancelIf]
    exact ⟨hs, by simp [hc, cancelIf]⟩
  obliging h := by simpa [flushSink, h.flush] using h
  works h := by simpa [flushSink] using h.flush.2

/-- What one write call on the sink does to the console. -/
structure Offered (c : Console) (bytes : Array UInt8) (answer : Except IoError Nat)
    (after : Console) : Prop where
  only : c.OnlyOutput after
  buffer : after.buffer = c.buffer
  accepted : after.sink.accepted = c.sink.accepted ++ bytes.take (Sink.countOf answer)
  calls : after.calls = .write c.flag.awaitingInput bytes.size answer :: c.calls

theorem offered_of_offer {c after : Console} {bytes : Array UInt8} {answer : Except IoError Nat}
    (h : c.offer bytes = (answer, after)) : c.Offered bytes answer after := by
  have h1 : answer = (c.offer bytes).1 := by rw [h]
  have h2 : after = (c.offer bytes).2 := by rw [h]
  subst h1 h2
  refine ⟨onlyOutput_offer c bytes, by simp [offer], ?_, by simp [offer]⟩
  rw [sink_offer, offer_fst]
  exact Sink.accepted_write c.sink bytes

/-- **The contract of `writeAll`.** The sink takes the bytes from the front, and what it does
not take is given back; something is given back only if a call stood in the way. -/
structure Written (c : Console) (bytes : Array UInt8) (answer : Except IoError Unit)
    (left : Array UInt8) (after : Console) : Prop where
  only : c.OnlyOutput after
  buffer : after.buffer = c.buffer
  taken : ∃ taken, taken ++ left = bytes ∧ after.sink.accepted = c.sink.accepted ++ taken
  left_of_ok : answer = .ok () → left = #[]
  left_of_error : ∀ e, answer = .error e → left ≠ #[]
  hindrance : ∀ e, answer = .error e → ∃ call ∈ after.calls, call.isHarmless = false

variable {c after : Console} {bytes : Array UInt8} {answer : Except IoError Nat}

/-- A call that accepts nothing and is not repeated ends the writing. -/
theorem Offered.stop (h : c.Offered bytes answer after) (hne : bytes ≠ #[])
    (h0 : Sink.countOf answer = 0)
    (hbad : ∀ awaiting n, (Call.write awaiting n answer).isHarmless = false) (e : IoError) :
    c.Written bytes (.error e) bytes after where
  only := h.only
  buffer := h.buffer
  taken := ⟨#[], by simp, by simp [h.accepted, h0]⟩
  left_of_ok hok := nomatch hok
  left_of_error _ _ := hne
  hindrance _ _ := ⟨_, by rw [h.calls]; exact List.mem_cons_self, hbad _ _⟩

/-- A call that accepts some of the bytes leaves the others to be written. -/
theorem Offered.go_on (h : c.Offered bytes answer after) (hle : Sink.countOf answer ≤ bytes.size)
    {result : Except IoError Unit} {left : Array UInt8} {last : Console}
    (hw : after.Written (bytes.extract (Sink.countOf answer) bytes.size) result left last) :
    c.Written bytes result left last where
  only := h.only.trans hw.only
  buffer := hw.buffer.trans h.buffer
  taken := by
    obtain ⟨taken, hsplit, htaken⟩ := hw.taken
    refine ⟨bytes.take (Sink.countOf answer) ++ taken, ?_, ?_⟩
    · rw [Array.append_assoc, hsplit, Array.take_eq_extract, Array.extract_append_extract]
      simp [Nat.max_eq_right hle]
    · rw [htaken, h.accepted, Array.append_assoc]
  left_of_ok := hw.left_of_ok
  left_of_error := hw.left_of_error
  hindrance := hw.hindrance

theorem written_writeAll (stalled : IoError) (c : Console) (bytes : Array UInt8) :
    c.Written bytes (c.writeAll stalled bytes).1 (c.writeAll stalled bytes).2.1
      (c.writeAll stalled bytes).2.2 := by
  fun_induction writeAll stalled c bytes with
  | case1 c bytes hempty =>
    have he : bytes = #[] := by simpa using hempty
    exact ⟨.refl c, rfl, ⟨#[], by simp [he], by simp⟩, fun _ => rfl, by simp, by simp⟩
  | case2 c bytes hne e after hoffer hint hlt ih =>
    -- an interruption accepts nothing, and all bytes are offered again
    exact (offered_of_offer hoffer).go_on (Nat.zero_le _) (by simpa [Sink.countOf] using ih)
  | case3 c bytes hne e after hoffer hfatal =>
    exact (offered_of_offer hoffer).stop (by simpa using hne) rfl
      (fun _ _ => by simpa [Call.isHarmless] using hfatal) e
  | case4 c bytes hne after hoffer =>
    exact (offered_of_offer hoffer).stop (by simpa using hne) rfl (fun _ _ => rfl) stalled
  | case5 c bytes hne n after hoffer hn hle hlt ih =>
    exact (offered_of_offer hoffer).go_on hle.1 ih

/-- **The contract of an output operation** that is to add some bytes to the bytes printed: it
adds them if it succeeds, and nothing if it fails; it fails only if a call stood in the way. -/
structure Served (c : Console) (added : Array UInt8) (result : Except IoError Unit)
    (after : Console) : Prop where
  only : c.OnlyOutput after
  unbuffered : c.buffer = none → after.buffer = none
  sent_of_ok : result = .ok () → after.sent = c.sent ++ added
  sent_of_error : ∀ e, result = .error e → after.sent = c.sent
  hindrance : ∀ e, result = .error e → ∃ call ∈ after.calls, call.isHarmless = false

variable {added : Array UInt8} {result : Except IoError Unit}

theorem Served.then {mid : Console} (h : c.Served #[] (.ok ()) mid)
    (h' : mid.Served added result after) : c.Served added result after := by
  have hsent : mid.sent = c.sent := by simpa using h.sent_of_ok rfl
  refine ⟨h.only.trans h'.only, fun hb => h'.unbuffered (h.unbuffered hb), ?_, ?_, h'.hindrance⟩
  · intro hok
    rw [h'.sent_of_ok hok, hsent]
  · intro e he
    rw [h'.sent_of_error e he, hsent]

theorem served_of_drain (h : c.drain = (result, after)) : c.Served #[] result after := by
  unfold drain at h
  split at h
  · cases h
    exact ⟨.refl c, id, by simp, by simp, by simp⟩
  · rename_i b hb
    obtain ⟨rfl, rfl⟩ := Prod.mk.inj h
    have hw := written_writeAll bufferStalled { c with buffer := some { b with pending := #[] } }
      b.pending
    obtain ⟨taken, hsplit, htaken⟩ := hw.taken
    -- what was pending is now accepted or still pending, in the same order
    have hsent : ∀ left, taken ++ left = b.pending → c.sink.accepted ++ taken ++ left = c.sent := by
      intro left hl
      rw [Array.append_assoc, hl]
      simp [sent, pending, hb]
    refine ⟨hw.only.with_buffer, fun hn => by simp [hb] at hn, ?_, ?_, hw.hindrance⟩
    · intro _
      simpa [sent, pending, htaken] using hsent _ hsplit
    · intro e _
      simpa [sent, pending, htaken] using hsent _ hsplit

theorem pending_of_drain (h : c.drain = (.ok (), after)) : after.pending = #[] := by
  unfold drain at h
  split at h
  · rename_i hb
    cases h
    simp [pending, hb]
  · rename_i b hb
    obtain ⟨hok, rfl⟩ := Prod.mk.inj h
    exact (written_writeAll bufferStalled _ b.pending).left_of_ok hok

theorem served_of_putThrough {byte : UInt8} (h : c.putThrough byte = (result, after))
    (hp : c.pending = #[]) : c.Served #[byte] result after := by
  obtain ⟨rfl, rfl⟩ := Prod.mk.inj h
  have hw := written_writeAll wholeStalled c #[byte]
  obtain ⟨taken, hsplit, htaken⟩ := hw.taken
  have hp' : (c.writeAll wholeStalled #[byte]).2.2.pending = #[] := by
    rw [pending, hw.buffer]
    exact hp
  refine ⟨hw.only, fun hb => hw.buffer.trans hb, ?_, ?_, hw.hindrance⟩
  · intro hok
    rw [hw.left_of_ok hok, Array.append_empty] at hsplit
    simp [sent, hp, hp', htaken, hsplit]
  · intro e he
    -- the one byte was not taken, since something is left
    have ht : taken = #[] := by
      have hsize := congrArg Array.size hsplit
      have hleft := Array.size_pos_iff.2 (hw.left_of_error e he)
      have hone : #[byte].size = 1 := rfl
      rw [Array.size_append, hone] at hsize
      exact Array.eq_empty_of_size_eq_zero (by omega)
    simp [sent, hp, hp', htaken, ht]

theorem served_of_store {byte : UInt8} (h : c.store byte = (result, after))
    (hp : ∀ b, c.buffer = some b → b.capacity ≤ 1 → b.pending = #[]) :
    c.Served #[byte] result after := by
  unfold store at h
  split at h
  · rename_i hb
    exact served_of_putThrough h (by simp [pending, hb])
  · rename_i b hb
    split at h
    · rename_i hcap
      exact served_of_putThrough h (by simpa [pending, hb] using hp b hb hcap)
    · cases h
      refine ⟨.with_buffer (.refl _), fun hn => by simp [hb] at hn, ?_, by simp, by simp⟩
      intro _
      simp [sent, pending, hb]

/-- **One byte of output** is added to the bytes printed, unless it fails. -/
theorem served_of_put {byte : UInt8} (h : c.put byte = (result, after)) :
    c.Served #[byte] result after := by
  unfold put at h
  split at h
  · split at h
    · rename_i e mid hd
      cases h
      have hs := served_of_drain hd
      exact ⟨hs.only, hs.unbuffered, by simp, by simpa using hs.sent_of_error, hs.hindrance⟩
    · rename_i mid hd
      refine (served_of_drain hd).then (served_of_store h ?_)
      intro b hb _
      simpa [pending, hb] using pending_of_drain hd
  · rename_i hfull
    refine served_of_store h ?_
    intro b hb hcap
    -- a buffer of at most one byte that has room is empty
    simp only [isFull, hb, decide_eq_true_eq] at hfull
    exact Array.eq_empty_of_size_eq_zero (by omega)

theorem flushSink_eq (c : Console) :
    c.flushSink = (c.sink.flush.1, ({ c with
      sink := c.sink.flush.2.2
      calls := .flush c.flag.awaitingInput c.sink.flush.1 :: c.calls } : Console).cancelIf
        c.sink.flush.2.1) := rfl

theorem served_of_flushSink (h : c.flushSink = (result, after)) : c.Served #[] result after := by
  have honly := onlyOutput_flushSink c
  rw [h] at honly
  rw [flushSink_eq] at h
  obtain ⟨hr, rfl⟩ := Prod.mk.inj h
  refine ⟨honly, fun hb => by simpa using hb, ?_, ?_, ?_⟩
  · intro _
    simp [sent, pending, Sink.accepted_flush]
  · intro e _
    simp [sent, pending, Sink.accepted_flush]
  · intro e he
    refine ⟨.flush c.flag.awaitingInput c.sink.flush.1, by simp, ?_⟩
    rw [hr, he]
    rfl

/-- **A flush** keeps the bytes printed. -/
theorem served_of_flush (h : c.flush = (result, after)) : c.Served #[] result after := by
  unfold flush at h
  split at h
  · rename_i e mid hd
    cases h
    exact served_of_drain hd
  · rename_i mid hd
    exact (served_of_drain hd).then (served_of_flushSink h)

/-- A flush that succeeds has emptied the buffer. -/
theorem pending_of_flush (h : c.flush = (.ok (), after)) : after.pending = #[] := by
  unfold flush at h
  split at h
  · cases h
  · rename_i mid hd
    obtain ⟨-, rfl⟩ := Prod.mk.inj h
    simpa [flushSink, pending] using pending_of_drain hd

theorem ok_of_writeAll {stalled : IoError} (h : c.sink.Works) :
    (c.writeAll stalled bytes).1 = .ok () := by
  fun_induction writeAll stalled c bytes with
  | case1 => rfl
  | case2 c bytes hne e after ho hint hlt ih => exact ih ((offered_of_offer ho).only.works h)
  | case3 c bytes hne e after ho hfatal =>
    -- the only failures of a sink that works are interruptions
    obtain ⟨-, herror, -⟩ := h.write bytes
    exact absurd (herror e (by rw [← offer_fst, ho])) hfatal
  | case4 c bytes hne after ho =>
    obtain ⟨hsome, -⟩ := h.write bytes
    have hempty := hsome 0 (by rw [← offer_fst, ho]) rfl
    exact absurd (by simp [hempty]) hne
  | case5 c bytes hne n after ho hn hle hlt ih => exact ih ((offered_of_offer ho).only.works h)

theorem ok_of_drain (h : c.sink.Works) : c.drain.1 = .ok () := by
  unfold drain
  split
  · rfl
  · exact ok_of_writeAll h

/-- A byte put out to a sink that works does not fail. -/
theorem ok_of_put {byte : UInt8} (h : c.sink.Works) : (c.put byte).1 = .ok () := by
  have hstore : ∀ {c : Console}, c.sink.Works → (c.store byte).1 = .ok () := by
    intro c h
    unfold store
    split
    · exact ok_of_writeAll h
    · split
      · exact ok_of_writeAll h
      · rfl
  have hok := ok_of_drain h
  unfold put
  split
  · rcases hd : c.drain with ⟨e | _, mid⟩
    · simp [hd] at hok
    · exact hstore ((served_of_drain hd).only.works h)
  · exact hstore h

/-- A flush of a sink that works does not fail. -/
theorem ok_of_flush (h : c.sink.Works) : c.flush.1 = .ok () := by
  have hok := ok_of_drain h
  unfold flush
  rcases hd : c.drain with ⟨e | _, mid⟩
  · simp [hd] at hok
  · have hmid := (served_of_drain hd).only.works h
    simp [flushSink_eq, hmid.flush.1]

/-- A property of consoles that calls on the sink keep, and that does not look at the buffer. -/
structure OutputInvariant (P : Console → Prop) : Prop where
  buffer : ∀ c b, P c → P { c with buffer := b }
  offer : ∀ c bytes, P c → P (c.offer bytes).2
  flushSink : ∀ c, P c → P c.flushSink.2

namespace OutputInvariant

variable {P : Console → Prop}

theorem writeAll (hP : OutputInvariant P) (stalled : IoError) (h : P c) :
    P (c.writeAll stalled bytes).2.2 := by
  have hoffer : ∀ {c after : Console} {bytes answer}, P c → c.offer bytes = (answer, after) →
      P after := by
    intro c after bytes answer h ho
    have hafter := hP.offer c bytes h
    rwa [ho] at hafter
  fun_induction Console.writeAll stalled c bytes with
  | case1 => exact h
  | case2 c bytes hne e after ho hint hlt ih => exact ih (hoffer h ho)
  | case3 c bytes hne e after ho hfatal => exact hoffer h ho
  | case4 c bytes hne after ho => exact hoffer h ho
  | case5 c bytes hne n after ho hn hle hlt ih => exact ih (hoffer h ho)

theorem drain (hP : OutputInvariant P) (h : P c) : P c.drain.2 := by
  unfold Console.drain
  split
  · exact h
  · exact hP.buffer _ _ (hP.writeAll bufferStalled (hP.buffer _ _ h))

theorem store (hP : OutputInvariant P) (byte : UInt8) (h : P c) : P (c.store byte).2 := by
  unfold Console.store
  split
  · exact hP.writeAll wholeStalled h
  · split
    · exact hP.writeAll wholeStalled h
    · exact hP.buffer _ _ h

theorem put (hP : OutputInvariant P) (byte : UInt8) (h : P c) : P (c.put byte).2 := by
  unfold Console.put
  split
  · have hdrain := hP.drain h
    rcases hd : c.drain with ⟨_ | _, mid⟩ <;> rw [hd] at hdrain
    · exact hdrain
    · exact hP.store byte hdrain
  · exact hP.store byte h

theorem flush (hP : OutputInvariant P) (h : P c) : P c.flush.2 := by
  unfold Console.flush
  have hdrain := hP.drain h
  rcases hd : c.drain with ⟨_ | _, mid⟩ <;> rw [hd] at hdrain
  · exact hdrain
  · exact hP.flushSink mid hdrain

end OutputInvariant

/-- Calls on the output leave the input alone. -/
theorem outputInvariant_source (source : Source) : OutputInvariant fun c => c.source = source where
  buffer _ _ h := h
  offer c bytes h := by simpa [offer] using h
  flushSink c h := by simpa [flushSink] using h

section writeAll

variable {stalled e : IoError} {n : Nat}

theorem writeAll_of_empty (h : bytes.isEmpty = true) :
    c.writeAll stalled bytes = (.ok (), #[], c) := by
  rw [writeAll, if_pos h]

theorem writeAll_of_interrupted (hne : ¬bytes.isEmpty = true)
    (h : c.offer bytes = (.error e, after)) (he : e.isInterrupted = true) :
    c.writeAll stalled bytes = after.writeAll stalled bytes := by
  rw [writeAll, if_neg hne]
  split <;> grind

theorem writeAll_of_error (hne : ¬bytes.isEmpty = true)
    (h : c.offer bytes = (.error e, after)) (he : ¬e.isInterrupted = true) :
    c.writeAll stalled bytes = (.error e, bytes, after) := by
  rw [writeAll, if_neg hne]
  split <;> grind

theorem writeAll_of_stalled (hne : ¬bytes.isEmpty = true)
    (h : c.offer bytes = (.ok 0, after)) :
    c.writeAll stalled bytes = (.error stalled, bytes, after) := by
  rw [writeAll, if_neg hne]
  split <;> grind

theorem writeAll_of_ok (hne : ¬bytes.isEmpty = true) (h : c.offer bytes = (.ok n, after))
    (hn : n ≠ 0) :
    c.writeAll stalled bytes = after.writeAll stalled (bytes.extract n bytes.size) := by
  rw [writeAll, if_neg hne]
  split <;> grind

end writeAll

/-- A map of consoles that leaves the buffer alone and that calls on the sink commute with. -/
structure OutputMap (f : Console → Console) : Prop where
  buffer_eq : ∀ c, (f c).buffer = c.buffer
  buffer : ∀ c b, f { c with buffer := b } = { f c with buffer := b }
  offer : ∀ c bytes, (f c).offer bytes = ((c.offer bytes).1, f (c.offer bytes).2)
  flushSink : ∀ c, (f c).flushSink = (c.flushSink.1, f c.flushSink.2)

namespace OutputMap

variable {f : Console → Console}

/-- Writing goes through the same calls. -/
theorem writeAll (hf : OutputMap f) (stalled : IoError) (c : Console) (bytes : Array UInt8) :
    (f c).writeAll stalled bytes =
      ((c.writeAll stalled bytes).1, (c.writeAll stalled bytes).2.1,
        f (c.writeAll stalled bytes).2.2) := by
  -- the call on the other console, from the call that was made
  have hoffer : ∀ {c after : Console} {bytes answer}, c.offer bytes = (answer, after) →
      (f c).offer bytes = (answer, f after) := by
    intro c after bytes answer h
    rw [hf.offer, h]
  fun_induction Console.writeAll stalled c bytes with
  | case1 c bytes hempty => exact writeAll_of_empty hempty
  | case2 c bytes hne e after ho hint hlt ih =>
    rw [writeAll_of_interrupted hne (hoffer ho) hint, ih]
  | case3 c bytes hne e after ho hfatal => exact writeAll_of_error hne (hoffer ho) hfatal
  | case4 c bytes hne after ho => exact writeAll_of_stalled hne (hoffer ho)
  | case5 c bytes hne n after ho hn hle hlt ih => rw [writeAll_of_ok hne (hoffer ho) hn, ih]

theorem drain (hf : OutputMap f) (c : Console) : (f c).drain = (c.drain.1, f c.drain.2) := by
  rw [Console.drain, Console.drain, hf.buffer_eq]
  cases c.buffer with
  | none => rfl
  | some b => simp only [← hf.buffer, hf.writeAll]

theorem putThrough (hf : OutputMap f) (c : Console) (byte : UInt8) :
    (f c).putThrough byte = ((c.putThrough byte).1, f (c.putThrough byte).2) := by
  simp only [Console.putThrough, hf.writeAll]

theorem store (hf : OutputMap f) (c : Console) (byte : UInt8) :
    (f c).store byte = ((c.store byte).1, f (c.store byte).2) := by
  rw [Console.store, Console.store, hf.buffer_eq]
  cases c.buffer with
  | none => exact hf.putThrough c byte
  | some b =>
    simp only
    split
    · exact hf.putThrough c byte
    · exact congrArg (Prod.mk _) (hf.buffer c _).symm

/-- **One byte of output** commutes with the map. -/
theorem put (hf : OutputMap f) (c : Console) (byte : UInt8) :
    (f c).put byte = ((c.put byte).1, f (c.put byte).2) := by
  have hfull : (f c).isFull = c.isFull := by rw [isFull, isFull, hf.buffer_eq]
  rw [Console.put, Console.put, hfull]
  split
  · rw [hf.drain]
    rcases c.drain with ⟨_ | _, after⟩
    · rfl
    · exact hf.store after byte
  · exact hf.store c byte

/-- **A flush** commutes with the map. -/
theorem flush (hf : OutputMap f) (c : Console) : (f c).flush = (c.flush.1, f c.flush.2) := by
  rw [Console.flush, Console.flush, hf.drain]
  rcases c.drain with ⟨_ | _, after⟩
  · rfl
  · exact hf.flushSink after

end OutputMap

end Console

end Brainfuck
