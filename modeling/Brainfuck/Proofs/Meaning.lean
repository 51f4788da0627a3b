import Brainfuck.Block.Eval
import Brainfuck.Proofs.BlockText
import Brainfuck.Proofs.Output
import Brainfuck.Proofs.Run

/-!
# Blocks run as they mean

The machine finds its way by an index and by scans for brackets. On the text of a block it gets
where the meaning of the block says: to its end, to the same move off the tape, or nowhere.

* `Machine.follows_of_stands`: a byte that is no bracket is carried out as it acts.
* `Machine.step_of_plain`, `Machine.step_of_open`, `Machine.step_of_close`: the steps on the
  bytes of a block.
* `Machine.meets_of_eval`: the machine follows an evaluation, by induction on it.
* `Machine.exists_eval_of_steps`: a machine that gets to an end has an evaluation to follow, by
  induction on its steps.
* `Machine.returns_iff_eval`: what this means for whole runs.
-/

namespace Brainfuck

/-- What a read finds at the front of the input that is left. -/
def ReadResult.ofInput : List UInt8 → ReadResult
  | [] => .endOfInput
  | b :: _ => .byte b

namespace Source

theorem ofBytes_injective : Function.Injective ofBytes := by
  intro s t h
  have hitems : s.map InputItem.byte = t.map InputItem.byte := congrArg Source.items h
  exact (List.map_inj_right fun _ _ hb => InputItem.byte.inj hb).1 hitems

theorem read_ofBytes (input : List UInt8) :
    (ofBytes input).read = (.ofInput input, false, ofBytes input.tail) := by
  cases input <;> rfl

end Source

namespace Block

namespace State

/-- The tape with the cells and the cursor of a state. -/
def tape (s : State) : Tape := ⟨s.cells.toArray, s.cursor, by simpa using s.cursor_lt⟩

/-- The state before a run on a tape, with all of the input to come. -/
def ofTape (tape : Tape) (input : List UInt8) : State :=
  ⟨tape.cells.toList, tape.cursor, by simpa using tape.cursor_lt, input, []⟩

variable {s : State}

theorem tape_ofTape (tape : Tape) (input : List UInt8) : (ofTape tape input).tape = tape := rfl

theorem read_tape (s : State) : s.tape.read = s.cell := by
  simp [Tape.read, tape, cell]

theorem write_tape (s : State) (b : UInt8) : s.tape.write b = (s.setCell b).tape := by
  simp [Tape.write, tape, setCell]

/-- One more, modulo 256, is what the fixed width does by itself. -/
theorem increment_tape (s : State) :
    s.tape.increment = (s.setCell (.ofNat ((s.cell.toNat + 1) % 256))).tape := by
  have hsum : s.cell + 1 = .ofNat ((s.cell.toNat + 1) % 256) := by
    rw [← UInt8.toNat_inj, UInt8.toNat_add, UInt8.toNat_ofNat', show UInt8.toNat 1 = 1 from rfl]
    omega
  rw [Tape.increment, read_tape, write_tape, hsum]

theorem decrement_tape (s : State) :
    s.tape.decrement = (s.setCell (.ofNat ((s.cell.toNat + 255) % 256))).tape := by
  have hdifference : s.cell - 1 = .ofNat ((s.cell.toNat + 255) % 256) := by
    rw [← UInt8.toNat_inj, UInt8.toNat_sub, UInt8.toNat_ofNat', show UInt8.toNat 1 = 1 from rfl]
    omega
  rw [Tape.decrement, read_tape, write_tape, hdifference]

theorem advance_tape (h : s.cursor + 1 < s.cells.length) :
    s.tape.advance = .ok { s with cursor := s.cursor + 1, cursor_lt := h : State }.tape := by
  simp [Tape.advance, tape, h]

theorem advance_tape_of_last (h : ¬ s.cursor + 1 < s.cells.length) :
    s.tape.advance = .error s.tape.edge := by
  simp [Tape.advance, tape, h]

theorem retreat_tape (h : 0 < s.cursor) :
    s.tape.retreat = .ok { s with
      cursor := s.cursor - 1
      cursor_lt := Nat.lt_of_le_of_lt (Nat.sub_le _ _) s.cursor_lt : State }.tape := by
  have hne : s.tape.cursor ≠ 0 := Nat.pos_iff_ne_zero.1 h
  rw [Tape.retreat, if_neg hne]
  rfl

theorem retreat_tape_of_first (h : ¬ 0 < s.cursor) : s.tape.retreat = .error s.tape.edge := by
  have hzero : s.tape.cursor = 0 := Nat.eq_zero_of_not_pos h
  rw [Tape.retreat, if_pos hzero]

end State

/-- A byte that is a comment does nothing. -/
theorem act_of_noOp {b : UInt8} (h : Opcode.ofByte b = .noOp) (s : State) : act b s = .ok s := by
  have hne : ∀ (op : Opcode) (c : Char), op.symbol? = some c → b ≠ c.toUInt8 := by
    rintro op c hc rfl
    rw [Opcode.ofByte_symbol op c hc] at h
    rw [h] at hc
    cases hc
  rw [act, if_neg (hne .moveRight _ rfl), if_neg (hne .moveLeft _ rfl),
    if_neg (hne .increment _ rfl), if_neg (hne .decrement _ rfl), if_neg (hne .output _ rfl),
    if_neg (hne .input _ rfl)]

end Block

namespace Console

/-- Input that ends and is left, output so far, and nothing that could get in the way. -/
structure Carries (c : Console) (input output : List UInt8) : Prop where
  source : c.source = .ofBytes input
  obliging : c.sink.Obliging
  lowered : c.flag.cancelled = false
  sent : c.sent.toList = output

variable {c after : Console} {input output : List UInt8} {b : UInt8}

theorem carries_make (input : List UInt8) (capacity : Option Nat) :
    (make (.ofBytes input) .accepting capacity).Carries input [] := by
  refine ⟨rfl, Sink.obliging_accepting, rfl, ?_⟩
  cases capacity <;> rfl

theorem Carries.served {added : Array UInt8} (h : c.Carries input output)
    (hs : c.Served added (.ok ()) after) : after.Carries input (output ++ added.toList) where
  source := hs.only.source.trans h.source
  obliging := hs.only.obliging h.obliging
  lowered := by
    obtain ⟨-, hflag⟩ := hs.only.quiet h.obliging.neverCancels
    rw [hflag, h.lowered]
  sent := by rw [hs.sent_of_ok rfl, Array.toList_append, h.sent]

theorem Carries.put (h : c.Carries input output) (b : UInt8) :
    ∃ after, c.put b = (.ok (), after) ∧ after.Carries input (output ++ [b]) := by
  have hput : c.put b = (.ok (), (c.put b).2) := Prod.ext (ok_of_put h.obliging.works) rfl
  exact ⟨_, hput, h.served (served_of_put hput)⟩

theorem Carries.flush (h : c.Carries input output) :
    ∃ after, c.flush = (.ok (), after) ∧ after.Carries input output ∧
      after.sink.accepted.toList = output := by
  have hflush : c.flush = (.ok (), c.flush.2) := Prod.ext (ok_of_flush h.obliging.works) rfl
  have hafter := h.served (served_of_flush hflush)
  rw [Array.toList_empty, List.append_nil] at hafter
  refine ⟨_, hflush, hafter, ?_⟩
  rw [← hafter.sent, Console.sent, pending_of_flush hflush, Array.append_empty]

theorem Carries.await (h : c.Carries input output) (waits : Bool) :
    (c.await waits).Carries input output := ⟨h.source, h.obliging, h.lowered, h.sent⟩

theorem Carries.read (h : c.Carries input output) :
    ∃ after, c.read = (.ofInput input, after) ∧ after.Carries input.tail output := by
  have hread : c.source.read = (.ofInput input, false, .ofBytes input.tail) := by
    rw [h.source, Source.read_ofBytes]
  refine ⟨c.read.2, ?_, ?_⟩
  · rw [Console.read, hread]
  · rw [Console.read, hread]
    exact ⟨rfl, h.obliging, h.lowered, h.sent⟩

end Console

namespace Machine

open Console (Carries)

variable {c : Console} {input output : List UInt8}

theorem awaitRead_of_carries (h : c.Carries input output) (heeds : Bool) :
    ∃ after, awaitRead c heeds = (.ofInput input, after) ∧ after.Carries input.tail output := by
  cases heeds
  · exact h.read
  · obtain ⟨after, hread, hafter⟩ := (h.await true).read
    exact ⟨after.await false, by simp [awaitRead, hread], hafter.await false⟩

/-- The machine at an index of the program, in the state of a block. -/
structure Stands (m : Machine) (p : Program) (i : Nat) (s : Block.State) : Prop where
  program : m.program = p
  ip : m.ip = i
  tape : m.tape = s.tape
  console : m.console.Carries s.input s.output

variable {m : Machine} {p : Program} {i : Nat} {s : Block.State}

theorem Stands.isCancelled (h : m.Stands p i s) : m.isCancelled = false := by
  simp [Machine.isCancelled, h.console.lowered]

/-- The machine at another index. -/
def moveTo (m : Machine) (k : Nat) : Machine := { m with ip := k }

theorem Stands.moveTo (h : m.Stands p i s) (k : Nat) : (m.moveTo k).Stands p k s :=
  ⟨h.program, rfl, h.tape, h.console⟩

/-- The machine carries out a byte as the byte acts: both go on, to the same state, or both fail
at the same edge of the cells. -/
def Follows (m : Machine) (p : Program) (i : Nat) (b : UInt8) (s : Block.State) : Prop :=
  (∃ s' m', Block.act b s = .ok s' ∧ m.execute (.ofByte b) = (.ok (), m') ∧
    m'.Stands p (i + 1) s') ∨
  (∃ op m', Block.act b s = .error op ∧
    m.execute (.ofByte b) = (.error (.outOfBounds i s.cursor op), m'))

/-- **A byte that works on the cells alone** is carried out as it acts if the tape gets them. -/
theorem follows_of_tape {b : UInt8} {s' : Block.State} (h : m.Stands p i s)
    (hact : Block.act b s = .ok s') (hinput : s'.input = s.input) (houtput : s'.output = s.output)
    (hexecute : m.execute (.ofByte b) = (.ok (), { m.next with tape := s'.tape })) :
    m.Follows p i b s := by
  obtain ⟨rfl, rfl, -, hconsole⟩ := h
  refine .inl ⟨s', _, hact, hexecute, rfl, rfl, rfl, ?_⟩
  rw [hinput, houtput]
  exact hconsole

theorem follows_moveRight (h : m.Stands p i s) : m.Follows p i '>'.toUInt8 s := by
  have hop : Opcode.ofByte '>'.toUInt8 = .moveRight := by decide
  by_cases hroom : s.cursor + 1 < s.cells.length
  · have hact : Block.act '>'.toUInt8 s =
        .ok { s with cursor := s.cursor + 1, cursor_lt := hroom } := by
      rw [Block.act, if_pos rfl, dif_pos hroom]
    refine follows_of_tape h hact rfl rfl ?_
    rw [hop, execute, h.tape, Block.State.advance_tape hroom]
    rfl
  · have hact : Block.act '>'.toUInt8 s = .error .moveRight := by
      rw [Block.act, if_pos rfl, dif_neg hroom]
    have hmove : m.tape.advance = .error s.tape.edge := by
      rw [h.tape, Block.State.advance_tape_of_last hroom]
    refine .inr ⟨_, m.next, hact, ?_⟩
    rw [hop, execute, hmove, ← h.ip]
    rfl

theorem follows_moveLeft (h : m.Stands p i s) : m.Follows p i '<'.toUInt8 s := by
  have hop : Opcode.ofByte '<'.toUInt8 = .moveLeft := by decide
  have hne : ¬ '<'.toUInt8 = '>'.toUInt8 := by decide
  by_cases hroom : 0 < s.cursor
  · have hact : Block.act '<'.toUInt8 s = .ok { s with
        cursor := s.cursor - 1
        cursor_lt := Nat.lt_of_le_of_lt (Nat.sub_le _ _) s.cursor_lt } := by
      rw [Block.act, if_neg hne, if_pos rfl, if_pos hroom]
    refine follows_of_tape h hact rfl rfl ?_
    rw [hop, execute, h.tape, Block.State.retreat_tape hroom]
    rfl
  · have hact : Block.act '<'.toUInt8 s = .error .moveLeft := by
      rw [Block.act, if_neg hne, if_pos rfl, if_neg hroom]
    have hmove : m.tape.retreat = .error s.tape.edge := by
      rw [h.tape, Block.State.retreat_tape_of_first hroom]
    refine .inr ⟨_, m.next, hact, ?_⟩
    rw [hop, execute, hmove, ← h.ip]
    rfl

/-- A read stores the first byte of the input; at its end the cell stays as it was. -/
theorem act_input (s : Block.State) :
    ∃ s', Block.act ','.toUInt8 s = .ok s' ∧ s'.tape = received s.tape (.ofInput s.input) ∧
      s'.input = s.input.tail ∧ s'.output = s.output := by
  obtain ⟨cells, cursor, hlt, input, output⟩ := s
  cases input with
  | nil => exact ⟨_, rfl, rfl, rfl, rfl⟩
  | cons b rest => exact ⟨_, rfl, (Block.State.write_tape _ b).symm, rfl, rfl⟩

/-- **A byte that is no bracket** is carried out as it acts. -/
theorem follows_of_stands (h : m.Stands p i s) (b : PlainByte) : m.Follows p i b.byte s := by
  obtain ⟨b, ho, hc⟩ := b
  simp only
  cases hop : Opcode.ofByte b with
  | openLoop => exact absurd hop (Opcode.ofByte_ne_openLoop ho)
  | closeLoop => exact absurd hop (Opcode.ofByte_ne_closeLoop hc)
  | moveRight =>
    rw [Opcode.eq_of_ofByte hop rfl]
    exact follows_moveRight h
  | moveLeft =>
    rw [Opcode.eq_of_ofByte hop rfl]
    exact follows_moveLeft h
  | increment =>
    obtain rfl := Opcode.eq_of_ofByte hop rfl
    refine follows_of_tape h rfl rfl rfl ?_
    rw [hop, execute, h.tape, Block.State.increment_tape]
    rfl
  | decrement =>
    obtain rfl := Opcode.eq_of_ofByte hop rfl
    refine follows_of_tape h rfl rfl rfl ?_
    rw [hop, execute, h.tape, Block.State.decrement_tape]
    rfl
  | output =>
    obtain ⟨rfl, rfl, htape, hconsole⟩ := h
    obtain rfl := Opcode.eq_of_ofByte hop rfl
    obtain ⟨c, hput, hc⟩ := hconsole.put s.cell
    rw [← Block.State.read_tape, ← htape] at hput
    refine .inl ⟨_, m.next.withConsole c, rfl, ?_, rfl, rfl, htape, hc⟩
    simp [hop, execute, outputCell_eq, hput, Except.mapError]
  | input =>
    obtain ⟨rfl, rfl, htape, hconsole⟩ := h
    obtain rfl := Opcode.eq_of_ofByte hop rfl
    obtain ⟨c, hflush, hc, -⟩ := hconsole.flush
    obtain ⟨d, hread, hd⟩ := awaitRead_of_carries hc m.heeds
    obtain ⟨s', hact, htape', hinput, houtput⟩ := act_input s
    -- no call raises the flag, so the machine does begin to wait
    have hgo : (m.heeds && c.flag.cancelled) = false := by simp [hc.lowered]
    have hexecute := inputCell_of_read hflush hgo hread
    rw [← execute, ← hop] at hexecute
    refine .inl ⟨s', _, hact, hexecute, rfl, rfl, ?_, ?_⟩
    · rw [htape', htape]
    · rw [hinput, houtput]
      exact hd
  | noOp =>
    refine follows_of_tape h (Block.act_of_noOp hop s) rfl rfl ?_
    rw [hop, execute, ← h.tape]
    rfl

/-- A step on a single byte of a block. -/
theorem step_of_plain (h : m.Stands p i s) (b : PlainByte) (hb : p.byteAt? i = some b.byte) :
    (∃ s' m', Block.act b.byte s = .ok s' ∧ m.step = (.ok .next, m') ∧ m'.Stands p (i + 1) s') ∨
    (∃ op m', Block.act b.byte s = .error op ∧
      m.step = (.error (.outOfBounds i s.cursor op), m')) := by
  have hstep := step_of_byte h.isCancelled (by rw [h.program, h.ip]; exact hb)
  rcases follows_of_stands h b with ⟨s', m', hact, hexecute, hm'⟩ | ⟨op, m', hact, hexecute⟩
  · rw [hexecute] at hstep
    exact .inl ⟨s', m', hact, hstep, hm'⟩
  · rw [hexecute] at hstep
    exact .inr ⟨op, m', hact, hstep⟩

variable {body next block : Block}

/-- At the open of a loop, the machine goes on behind the loop or into its body. -/
theorem step_of_open (h : m.Stands p i s) (hp : p.HasAt i (Block.loop body next).text) :
    m.step = (.ok .next,
      m.moveTo (if s.cell = 0 then i + body.text.length + 2 else i + 1)) := by
  have hcloser := Program.closerAfter?_of_loop hp
  rw [step_of_byte h.isCancelled (by rw [h.program, h.ip]; exact hp.head)]
  obtain ⟨rfl, rfl, htape, -⟩ := h
  rw [← s.read_tape, ← htape, show Opcode.ofByte openByte = .openLoop by decide]
  by_cases hz : m.tape.read = 0 <;> simp [execute, hz, hcloser, moveTo, Except.map]

/-- **At the close of a loop** the machine goes where it would go from the open. -/
theorem step_of_close (h : m.Stands p (i + body.text.length + 1) s)
    (hp : p.HasAt i (Block.loop body next).text) :
    m.step = (.ok .next,
      m.moveTo (if s.cell = 0 then i + body.text.length + 2 else i + 1)) := by
  have hopener := Program.openerBefore?_of_loop hp
  rw [step_of_byte h.isCancelled (by rw [h.program, h.ip]; exact hp.loop_close.head)]
  obtain ⟨rfl, hip, htape, -⟩ := h
  rw [← s.read_tape, ← htape, show Opcode.ofByte closeByte = .closeLoop by decide]
  by_cases hz : m.tape.read = 0 <;> simp [execute, hz, hip, hopener, moveTo, Except.map]

/-- A body that has been run leaves the machine before its loop again. -/
theorem leadsTo_open (h : m.Stands p (i + 1 + body.text.length) s)
    (hp : p.HasAt i (Block.loop body next).text) : m.LeadsTo (m.moveTo i) := by
  rw [Nat.add_right_comm] at h
  apply LeadsTo.of_step_eq
  rw [step_of_close h hp, step_of_open (h.moveTo i) hp]
  rfl

/-- The machine gets where the ending says: to an index with the state, or to the same error. -/
def Meets (m : Machine) (p : Program) (stop : Nat) : Block.Ending → Prop
  | .reached s => ∃ m', m.LeadsTo m' ∧ m'.Stands p stop s
  | .fell ip cursor op =>
    ∃ fuel last, m.steps fuel = some (.error (.outOfBounds ip cursor op), last)

theorem Meets.of_leadsTo {m' : Machine} {stop : Nat} {e : Block.Ending} (h : m'.Meets p stop e)
    (hlead : m.LeadsTo m') : m.Meets p stop e := by
  cases e with
  | reached s =>
    obtain ⟨last, hlast, hstands⟩ := h
    exact ⟨last, hlead.trans hlast, hstands⟩
  | fell ip cursor op =>
    obtain ⟨fuel, last, hsteps⟩ := h
    obtain ⟨fuel', hsteps'⟩ := hlead.steps_of_steps hsteps
    exact ⟨fuel', last, hsteps'⟩

/-- **The machine follows an evaluation** to where it ends. -/
theorem meets_of_eval {e : Block.Ending} (h : Block.Eval i block s e) (hm : m.Stands p i s)
    (hp : p.HasAt i block.text) : m.Meets p (i + block.text.length) e := by
  induction h generalizing m with
  | empty => exact ⟨m, .refl m, hm⟩
  | @plain i b next s s' e hact _ ih =>
    rcases step_of_plain hm b hp.head with ⟨t, m', hact', hstep, hm'⟩ | ⟨op, _, hact', -⟩
    · rw [hact] at hact'
      cases hact'
      have hmeets := ih hm' hp.tail
      rw [Nat.add_assoc, Nat.add_comm 1] at hmeets
      exact hmeets.of_leadsTo (.of_next hstep)
    · rw [hact] at hact'
      cases hact'
  | @fall i b next s op hact =>
    rcases step_of_plain hm b hp.head with ⟨t, m', hact', -, -⟩ | ⟨op', m', hact', hstep⟩
    · rw [hact] at hact'
      cases hact'
    · rw [hact] at hact'
      cases hact'
      exact ⟨1, m', steps_of_error hstep 0⟩
  | @skip i body next s e hz _ ih =>
    have hstep := step_of_open hm hp
    rw [if_pos hz] at hstep
    have hmeets := ih (hm.moveTo _) hp.loop_close.tail
    -- the loop and its sequel end where the sequel ends
    have hstop : i + (Block.loop body next).text.length =
        i + body.text.length + 2 + next.text.length := by
      simp only [Block.text, List.length_append, List.length_cons]
      omega
    rw [hstop]
    exact hmeets.of_leadsTo (.of_next hstep)
  | @again i body next s s' e hz _ _ ihbody ih =>
    have hstep := step_of_open hm hp
    rw [if_neg hz] at hstep
    obtain ⟨m', hlead, hm'⟩ := ihbody (hm.moveTo _) hp.loop_body
    -- behind the body the close looks at the cell, as the open would
    have hmeets := ih (hm'.moveTo i) hp
    exact hmeets.of_leadsTo (((LeadsTo.of_next hstep).trans hlead).trans (leadsTo_open hm' hp))
  | @fallInside i ip cursor op body next s hz _ ihbody =>
    have hstep := step_of_open hm hp
    rw [if_neg hz] at hstep
    have hmeets := ihbody (hm.moveTo _) hp.loop_body
    exact Meets.of_leadsTo hmeets (.of_next hstep)

/-- **A machine that gets to an end** has an evaluation to follow. One step leads from a block
to a part of it, or from a loop to its body and from there to the loop again, so all that is left
to evaluate is left with fewer steps. -/
theorem exists_eval_of_steps {fuel : Nat} {r : Except RunError Unit × Machine}
    (hm : m.Stands p i s) (hp : p.HasAt i block.text) (h : m.steps fuel = some r) :
    ∃ e, Block.Eval i block s e := by
  induction fuel generalizing block i m s with
  | zero => simp [steps] at h
  | succ fuel ih =>
    cases block with
    | empty => exact ⟨_, .empty⟩
    | plain b next =>
      rcases step_of_plain hm b hp.head with ⟨s', m', hact, hstep, hm'⟩ | ⟨op, m', hact, -⟩
      · rw [steps_of_next hstep] at h
        obtain ⟨e, he⟩ := ih hm' hp.tail h
        exact ⟨e, .plain hact he⟩
      · exact ⟨_, .fall hact⟩
    | loop body next =>
      have hstep := step_of_open hm hp
      rw [steps_of_next hstep] at h
      by_cases hz : s.cell = 0
      · rw [if_pos hz] at h
        obtain ⟨e, he⟩ := ih (hm.moveTo _) hp.loop_close.tail h
        exact ⟨e, .skip hz he⟩
      · rw [if_neg hz] at h
        obtain ⟨e, he⟩ := ih (hm.moveTo _) hp.loop_body h
        cases e with
        | fell ip cursor op => exact ⟨_, .fallInside hz he⟩
        | reached s' =>
          -- what follows the body takes no more steps than the body and what follows it
          obtain ⟨m', hlead, hm'⟩ := meets_of_eval he (hm.moveTo _) hp.loop_body
          have hagain := (leadsTo_open hm' hp).steps_to (hlead.steps_to h)
          obtain ⟨e, he'⟩ := ih (hm'.moveTo i) hp hagain
          exact ⟨e, .again hz he he'⟩

/-- The machine shows the state of a block, with all of the output in the sink. -/
structure Shows (m : Machine) (s : Block.State) : Prop where
  cells : m.tape.cells.toList = s.cells
  cursor : m.tape.cursor = s.cursor
  output : m.console.sink.accepted.toList = s.output
  input : m.console.source = .ofBytes s.input

theorem Shows.unique {s s' : Block.State} (h : m.Shows s) (h' : m.Shows s') : s = s' :=
  Block.State.ext (h.cells.symm.trans h'.cells) (h.cursor.symm.trans h'.cursor)
    (Source.ofBytes_injective (h.input.symm.trans h'.input)) (h.output.symm.trans h'.output)

/-- A run that reached the end of its block returns there, with its output flushed. -/
theorem returns_of_reached {s' : Block.State} (h : Block.Eval 0 block s (.reached s'))
    (hm : m.Stands block.toProgram 0 s) :
    ∃ after, m.Returns (.ok ()) after ∧ after.ip = block.toProgram.size ∧ after.Shows s' := by
  obtain ⟨m', hlead, hm'⟩ := meets_of_eval h hm (Program.hasAt_toProgram block)
  rw [Nat.zero_add] at hm'
  have hend : block.toProgram.byteAt? block.text.length = none := by
    rw [Program.byteAt?_eq_none_iff]
    exact Nat.le_refl _
  have hhalt : m'.step = (.ok .halted, m') :=
    step_of_end hm'.isCancelled (by rw [hm'.program, hm'.ip]; exact hend)
  obtain ⟨fuel, hsteps⟩ := hlead.steps_of_steps (steps_of_halted hhalt 0)
  obtain ⟨c, hflush, hc, haccepted⟩ := hm'.console.flush
  rcases finish_cases (.ok ()) m' with ⟨c', hf, hfinish⟩ | ⟨e, c', hf, -⟩
  · rw [hflush] at hf
    cases hf
    have hreturns := returns_iff.2 ⟨fuel, _, _, hsteps, hfinish⟩
    have htape : (m'.withConsole c).tape = s'.tape := hm'.tape
    refine ⟨_, hreturns, hm'.ip, ?_, ?_, haccepted, hc.source⟩
    · rw [htape, Block.State.tape]
    · rw [htape, Block.State.tape]
  · rw [hflush] at hf
    cases hf

/-- A run that fell off the tape returns that error. -/
theorem returns_of_fell {ip cursor : Nat} {op : Opcode}
    (h : Block.Eval 0 block s (.fell ip cursor op)) (hm : m.Stands block.toProgram 0 s) :
    ∃ after, m.Returns (.error (.outOfBounds ip cursor op)) after := by
  obtain ⟨fuel, last, hsteps⟩ := meets_of_eval h hm (Program.hasAt_toProgram block)
  exact ⟨_, returns_iff.2 ⟨fuel, _, last, hsteps, rfl⟩⟩

/-- **A run that returns** has followed an evaluation to its end. -/
theorem eval_of_returns {result : Except RunError Unit} {after : Machine}
    (h : m.Returns result after) (hm : m.Stands block.toProgram 0 s) :
    (∃ s', Block.Eval 0 block s (.reached s') ∧ result = .ok () ∧
      after.ip = block.toProgram.size ∧ after.Shows s') ∨
    (∃ ip cursor op, Block.Eval 0 block s (.fell ip cursor op) ∧
      result = .error (.outOfBounds ip cursor op)) := by
  obtain ⟨fuel, _, _, hsteps, -⟩ := returns_iff.1 h
  obtain ⟨e, he⟩ := exists_eval_of_steps hm (Program.hasAt_toProgram block) hsteps
  cases e with
  | reached s' =>
    obtain ⟨after', hret, hip, hshows⟩ := returns_of_reached he hm
    obtain ⟨hresult, rfl⟩ := h.unique hret
    exact .inl ⟨s', he, hresult, hip, hshows⟩
  | fell ip cursor op =>
    obtain ⟨after', hret⟩ := returns_of_fell he hm
    obtain ⟨hresult, -⟩ := h.unique hret
    exact .inr ⟨ip, cursor, op, he, hresult⟩

/-- **Blocks run as they mean.** The machine that looks for its brackets in the text of a block,
on any tape, with any input that ends, through any buffer into a sink that accepts everything:

* returns well, at the end of the text, with a tape, an output and an input left, if and only if
  the block evaluates to them;
* returns the error of a move off the tape if and only if the evaluation falls off the tape at
  this index, with this cursor and command;
* returns in no other way, and never for want of a bracket. -/
theorem returns_iff_eval (block : Block) (tape : Tape) (input : List UInt8)
    (capacity : Option Nat) (heeds : Bool) :
    let m := start block.toProgram tape (.make (.ofBytes input) .accepting capacity) heeds
    (∀ s, Block.Eval 0 block (.ofTape tape input) (.reached s) ↔
      ∃ after, m.Returns (.ok ()) after ∧ after.ip = block.toProgram.size ∧ after.Shows s) ∧
    (∀ ip cursor op, Block.Eval 0 block (.ofTape tape input) (.fell ip cursor op) ↔
      ∃ after, m.Returns (.error (.outOfBounds ip cursor op)) after) ∧
    (∀ result after, m.Returns result after →
      (result = .ok () ∧ after.ip = block.toProgram.size) ∨
        ∃ ip cursor op, result = .error (.outOfBounds ip cursor op)) ∧
    (∀ ip side after, ¬ m.Returns (.error (.unmatchedBracket ip side)) after) := by
  intro m
  have hm : m.Stands block.toProgram 0 (.ofTape tape input) :=
    ⟨rfl, rfl, (Block.State.tape_ofTape tape input).symm, Console.carries_make input capacity⟩
  refine ⟨?_, ?_, ?_, ?_⟩
  · intro s
    refine ⟨fun h => returns_of_reached h hm, ?_⟩
    rintro ⟨after, h, -, hshows⟩
    rcases eval_of_returns h hm with ⟨s', he, -, -, hshows'⟩ | ⟨_, _, _, -, hresult⟩
    · rw [hshows.unique hshows']
      exact he
    · cases hresult
  · intro ip cursor op
    refine ⟨fun h => returns_of_fell h hm, ?_⟩
    rintro ⟨after, h⟩
    rcases eval_of_returns h hm with ⟨_, -, hresult, -⟩ | ⟨_, _, _, he, hresult⟩
    · cases hresult
    · cases hresult
      exact he
  · intro result after h
    rcases eval_of_returns h hm with ⟨_, -, hresult, hip, -⟩ | ⟨ip, cursor, op, -, hresult⟩
    · exact .inl ⟨hresult, hip⟩
    · exact .inr ⟨ip, cursor, op, hresult⟩
  · intro ip side after h
    rcases eval_of_returns h hm with ⟨_, -, hresult, -⟩ | ⟨_, _, _, -, hresult⟩
    · cases hresult
    · cases hresult

/-- `+[.<]` prints one byte and falls off the tape in its first round, and `,[->-<]>.` counts the
byte read down to zero while the next cell counts down from zero. -/
theorem returns_iff_eval_of_runs :
    Block.Eval 0 (.plain ⟨0x2B, by decide, by decide⟩ (.loop (.plain ⟨0x2E, by decide, by decide⟩
      (.plain ⟨0x3C, by decide, by decide⟩ .empty)) .empty)) (.ofTape (.blank 1) [])
      (.fell 3 0 .moveLeft) ∧
    Block.Eval 0 (.plain ⟨0x2C, by decide, by decide⟩ (.loop (.plain ⟨0x2D, by decide, by decide⟩
      (.plain ⟨0x3E, by decide, by decide⟩ (.plain ⟨0x2D, by decide, by decide⟩
      (.plain ⟨0x3C, by decide, by decide⟩ .empty)))) (.plain ⟨0x3E, by decide, by decide⟩
      (.plain ⟨0x2E, by decide, by decide⟩ .empty)))) (.ofTape (.blank 2) [3, 8])
      (.reached ⟨[0, 253], 1, by decide, [8], [253]⟩) := by
  constructor
  · obtain ⟨-, hfell, -⟩ := returns_iff_eval (.plain ⟨0x2B, by decide, by decide⟩
      (.loop (.plain ⟨0x2E, by decide, by decide⟩ (.plain ⟨0x3C, by decide, by decide⟩ .empty))
        .empty)) (.blank 1) [] (some 2) true
    refine (hfell 3 0 .moveLeft).2 ?_
    have hrun : ((start (.ofString "+[.<]") (.blank 1) (.make (.ofBytes []) .accepting (some 2))
        true).run 9).map Prod.fst = some (.error (.outOfBounds 3 0 .moveLeft)) := by cbv
    obtain ⟨⟨result, after⟩, h, rfl⟩ := Option.map_eq_some_iff.1 hrun
    exact ⟨after, 9, h⟩
  · obtain ⟨hreached, -⟩ := returns_iff_eval (.plain ⟨0x2C, by decide, by decide⟩
      (.loop (.plain ⟨0x2D, by decide, by decide⟩ (.plain ⟨0x3E, by decide, by decide⟩
        (.plain ⟨0x2D, by decide, by decide⟩ (.plain ⟨0x3C, by decide, by decide⟩ .empty))))
        (.plain ⟨0x3E, by decide, by decide⟩ (.plain ⟨0x2E, by decide, by decide⟩ .empty))))
      (.blank 2) [3, 8] (some 2) true
    refine (hreached _).2 ?_
    have hrun : ((start (.ofString ",[->-<]>.") (.blank 2)
        (.make (.ofBytes [3, 8]) .accepting (some 2)) true).run 40).map
          (fun r => (r.1, r.2.ip, r.2.tape.cells.toList, r.2.tape.cursor,
            r.2.console.sink.accepted.toList, r.2.console.source)) =
        some (.ok (), 9, [0, 253], 1, [253], .ofBytes [8]) := by cbv
    obtain ⟨⟨result, after⟩, h, hafter⟩ := Option.map_eq_some_iff.1 hrun
    obtain ⟨rfl, hip, hcells, hcursor, haccepted, hsource⟩ := by simpa using hafter
    exact ⟨after, ⟨40, h⟩, hip, hcells, hcursor, haccepted, hsource⟩

end Machine

end Brainfuck
