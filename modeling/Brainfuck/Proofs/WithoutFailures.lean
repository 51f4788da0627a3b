import Brainfuck.Proofs.Awaiting

/-!
# Failed reads are invisible

A `,` whose read fails leaves the tape alone, as one does that finds the end of input. So a run
cannot tell the two apart: what it does depends on the input only through the bytes that its reads
deliver and the cancels on the way.

* `Console.outputMap_mapSource`, `Console.read_mapSource`: another input is seen only by reads.
* `Machine.step_mapSource`: a step does the same on another input whose next read finds the same.
* `Machine.performAll_mapSource`, `Machine.trail_mapSource`: so does a session, as long as its reads
  find the same.
* `Machine.alike_mend`: leaving out any failures of the input leaves a session as it is.
* `Machine.alike_emptied`, `Machine.alike_empty`: if every read fails, the input may as well be
  empty.
-/

namespace Brainfuck

/-- The byte that a read has delivered, if it has. -/
def ReadResult.byte? : ReadResult → Option UInt8
  | .byte b => some b
  | .endOfInput | .failed _ => none

/-- The answer with a failure taken for the end of input. -/
def ReadResult.withoutFailure : ReadResult → ReadResult
  | .failed _ => .endOfInput
  | answer => answer

/-- The item with a failure taken for the end of input. -/
def InputItem.withoutFailure : InputItem → InputItem
  | .fail _ => .endOfInput
  | item => item

theorem InputItem.withoutFailure_withoutFailure (item : InputItem) :
    item.withoutFailure.withoutFailure = item.withoutFailure := by
  cases item <;> rfl

/-- The call with a failed read taken for one that finds the end of input. -/
def Call.withoutFailure : Call → Call
  | .read awaiting cancelled answer => .read awaiting cancelled answer.withoutFailure
  | call => call

namespace Source

/-- The input whose reads find the end of input where they failed. -/
def withoutFailures (s : Source) : Source := ⟨s.items.map .withoutFailure, none⟩

/-- The input in which some of the items that fail, and perhaps also the reads past its script, find
the end of input instead. -/
def mend (which : Nat → Bool) (past : Bool) (s : Source) : Source where
  items := s.items.mapIdx fun i item => if which i then item.withoutFailure else item
  broken := if past then none else s.broken

/-- The input that has nothing but its cancels: every other item is the end of input. -/
def emptied (s : Source) : Source where
  items := s.items.map fun item => if item = .cancel then .cancel else .endOfInput
  broken := none

/-- One read of the second input finds what one of the first finds, up to a failure. -/
def FindsSame (f : Source → Source) (s : Source) : Prop :=
  (f s).read = (s.read.1.withoutFailure, s.read.2.1, f s.read.2.2)

theorem readItems_withoutFailures (broken : Option IoError) (items : List InputItem) :
    readItems none (items.map .withoutFailure) =
      ((readItems broken items).1.withoutFailure, (readItems broken items).2.1,
        (readItems broken items).2.2.map .withoutFailure) := by
  induction items with
  | nil => cases broken <;> rfl
  | cons item rest ih =>
    cases item with
    | cancel => simp [readItems, InputItem.withoutFailure, ih]
    | byte b => rfl
    | endOfInput => rfl
    | fail e => rfl

/-- **Without failures** every read finds the same. -/
theorem findsSame_withoutFailures (s : Source) : FindsSame withoutFailures s := by
  simp only [FindsSame, read, withoutFailures, readItems_withoutFailures s.broken s.items]

theorem readItems_emptied {broken : Option IoError} {items : List InputItem}
    (h : (readItems broken items).1.byte? = none) :
    readItems none (items.map fun item => if item = .cancel then .cancel else .endOfInput) =
      ((readItems broken items).1.withoutFailure, (readItems broken items).2.1,
        (readItems broken items).2.2.map fun item =>
          if item = .cancel then .cancel else .endOfInput) := by
  induction items with
  | nil => cases broken <;> rfl
  | cons item rest ih =>
    cases item with
    | cancel => simp [readItems, ih h]
    | byte b => cases h
    | endOfInput => rfl
    | fail e => rfl

/-- **With nothing but its cancels** an input finds the same in a read that delivers no byte. -/
theorem findsSame_emptied {s : Source} (h : s.read.1.byte? = none) : FindsSame emptied s := by
  simp only [FindsSame, read, emptied, readItems_emptied h]

/-- **The empty input** finds the same as a read that delivers no byte and raises no flag. -/
theorem findsSame_empty {s : Source} (h : s.read.1.byte? = none) (hcancels : s.read.2.1 = false) :
    FindsSame (fun _ => ofBytes []) s := by
  have hanswer : s.read.1.withoutFailure = .endOfInput := by
    cases hread : s.read.1 with
    | byte b =>
      rw [hread] at h
      cases h
    | endOfInput => rfl
    | failed e => rfl
  rw [FindsSame, hanswer, hcancels]
  rfl

theorem withoutFailures_withoutFailures (s : Source) :
    s.withoutFailures.withoutFailures = s.withoutFailures := by
  simp [withoutFailures, Function.comp_def, InputItem.withoutFailure_withoutFailure]

/-- **Leaving out only some failures** is half the way to leaving out all. -/
theorem withoutFailures_mend (which : Nat → Bool) (past : Bool) (s : Source) :
    (s.mend which past).withoutFailures = s.withoutFailures := by
  simp only [withoutFailures, mend, mk.injEq, and_true]
  apply List.ext_getElem
  · simp
  · intro i hi hi'
    simp only [List.getElem_map, List.getElem_mapIdx]
    split
    · exact InputItem.withoutFailure_withoutFailure _
    · rfl

end Source

namespace Console

/-- The console with another input, on which failed reads have found the end of input. -/
def mapSource (f : Source → Source) (c : Console) : Console :=
  { c with source := f c.source, calls := c.calls.map .withoutFailure }

variable {f : Source → Source}

theorem mapSource_cancelIf (c : Console) (b : Bool) :
    (c.cancelIf b).mapSource f = (c.mapSource f).cancelIf b := by
  cases b <;> rfl

/-- Calls on the output see nothing of the input. -/
theorem outputMap_mapSource (f : Source → Source) : OutputMap (mapSource f) where
  buffer_eq _ := rfl
  buffer _ _ := rfl
  offer c bytes := by
    simp only [offer, mapSource_cancelIf]
    rfl
  flushSink c := by
    simp only [flushSink, mapSource_cancelIf]
    rfl

/-- **A read** finds on the other input what that input finds. -/
theorem read_mapSource {c : Console} (h : Source.FindsSame f c.source) :
    (c.mapSource f).read = (c.read.1.withoutFailure, c.read.2.mapSource f) := by
  simp only [read, mapSource_cancelIf]
  rw [show (c.mapSource f).source = f c.source from rfl, h]
  rfl

theorem awaitRead_mapSource {c : Console} (h : Source.FindsSame f c.source) (heeds : Bool) :
    Machine.awaitRead (c.mapSource f) heeds =
      ((Machine.awaitRead c heeds).1.withoutFailure,
        (Machine.awaitRead c heeds).2.mapSource f) := by
  cases heeds with
  | false => exact read_mapSource h
  | true =>
    have hread := read_mapSource (c := c.await true) h
    have hawait : (c.mapSource f).await true = (c.await true).mapSource f := rfl
    simp only [Machine.awaitRead, if_true, hawait, hread]
    rfl

end Console

namespace Machine

/-- The machine with another input, on which failed reads have found the end of input. -/
def mapSource (f : Source → Source) (m : Machine) : Machine := m.mapConsole (.mapSource f)

/-- The machine whose reads find the end of input where they failed, and have found it. -/
def withoutFailures (m : Machine) : Machine := m.mapSource .withoutFailures

variable {m : Machine} {f : Source → Source} {fuel : Nat} {actions : List Action}

theorem received_withoutFailure (t : Tape) (answer : ReadResult) :
    received t answer.withoutFailure = received t answer := by
  cases answer <;> rfl

/-- **A step does the same on another input**, if its read, should it make one, finds the same. -/
theorem step_mapSource (h : ∀ c, m.reading? = some c → Source.FindsSame f c.source) :
    (m.mapSource f).step = (m.step.1, m.step.2.mapSource f) := by
  refine step_map rfl id ?_
  intro b hc hb
  refine ⟨b, hb, ?_⟩
  by_cases hi : Opcode.ofByte b = .input
  · have hop : m.program.opAt? m.ip = some .input := Program.opAt?_eq_some_iff.2 ⟨b, hb, hi⟩
    have hflush := (Console.outputMap_mapSource f).flush m.console
    rw [hi, execute, execute]
    -- the flush, and whether it has raised the flag, are the same on both inputs
    rcases inputCell_cases m with
      ⟨e, c, hf, heq⟩ | ⟨c, hf, hq, heq⟩ | ⟨c, answer, d, hf, hq, hr, heq⟩ <;>
      rw [hf] at hflush <;> rw [heq]
    · exact inputCell_of_error hflush
    · exact inputCell_of_cancelled hflush hq
    · have hfinds : Source.FindsSame f c.source :=
        h (c.await m.heeds) (reading?_eq_some_iff.2 ⟨hc, hop, c, hf, hq, rfl⟩)
      have hread := Console.awaitRead_mapSource hfinds m.heeds
      rw [hr] at hread
      have hsame := inputCell_of_read (m := m.mapSource f) hflush hq hread
      rw [hsame, received_withoutFailure]
      rfl
  · exact execute_mapConsole (Console.outputMap_mapSource f) hi m

theorem flush_mapSource (f : Source → Source) (m : Machine) :
    (m.mapSource f).flush = (m.flush.1, m.flush.2.mapSource f) :=
  flush_mapConsole (Console.outputMap_mapSource f) m

section session

variable (h : ∀ mid ∈ m.trail fuel actions, ∀ c, mid.reading? = some c →
  Source.FindsSame f c.source)

include h

/-- **A session does the same on another input** whose reads find the same. -/
theorem performAll_mapSource :
    (m.mapSource f).performAll fuel actions =
      (m.performAll fuel actions).map fun r => (r.1, r.2.mapSource f) :=
  performAll_map_of_eq (flush_mapSource f) (fun _ => rfl)
    fun mid hmid => step_mapSource (h mid hmid)

/-- So its steps start from the same states. -/
theorem trail_mapSource :
    (m.mapSource f).trail fuel actions = (m.trail fuel actions).map (.mapSource f) :=
  trail_map_of_eq (flush_mapSource f) (fun _ => rfl)
    fun mid hmid => step_mapSource (h mid hmid)

end session

theorem start_mapSource (program : Program) (tape : Tape) (source : Source) (sink : Sink)
    (capacity : Option Nat) (heeds : Bool) (f : Source → Source) :
    (start program tape (.make source sink capacity) heeds).mapSource f =
      start program tape (.make (f source) sink capacity) heeds := rfl

theorem mapSource_mapSource (f g : Source → Source) (m : Machine) :
    (m.mapSource f).mapSource g = m.mapSource (g ∘ f) := by
  have hcall : ∀ call : Call, call.withoutFailure.withoutFailure = call.withoutFailure := by
    intro call
    cases call with
    | read awaiting cancelled answer => cases answer <;> rfl
    | _ => rfl
  simp [mapSource, mapConsole, Console.mapSource, withConsole, hcall, Function.comp_def]

/-- What there is of the machine besides its input. -/
def forgetInput (m : Machine) : Machine := m.mapSource fun _ => .ofBytes []

/-- A session is the same on both machines, as far as a view of them shows: its actions answer the
same, its steps start from the same states and have the same results, and it comes to the same
end, if it does. -/
def Alike (view : Machine → Machine) (fuel : Nat) (actions : List Action) (m m' : Machine) : Prop :=
  (m.performAll fuel actions).map (fun r => (r.1, view r.2)) =
    (m'.performAll fuel actions).map (fun r => (r.1, view r.2)) ∧
  (m.trail fuel actions).map (fun mid => (mid.step.1, view mid)) =
    (m'.trail fuel actions).map fun mid => (mid.step.1, view mid)

variable {view : Machine → Machine} {m' m'' : Machine}

theorem Alike.symm (h : Alike view fuel actions m m') : Alike view fuel actions m' m :=
  ⟨h.1.symm, h.2.symm⟩

theorem Alike.trans (h : Alike view fuel actions m m') (h' : Alike view fuel actions m' m'') :
    Alike view fuel actions m m'' := ⟨h.1.trans h'.1, h.2.trans h'.2⟩

/-- **On another input whose reads find the same**, a session is the same. -/
theorem alike_mapSource (hview : ∀ m : Machine, view (m.mapSource f) = view m)
    (h : ∀ mid ∈ m.trail fuel actions, ∀ c, mid.reading? = some c →
      Source.FindsSame f c.source) :
    Alike view fuel actions (m.mapSource f) m := by
  constructor
  · rw [performAll_mapSource h, Option.map_map]
    congr 1
    funext r
    simp [hview]
  · rw [trail_mapSource h, List.map_map]
    apply List.map_congr_left
    intro mid hmid
    simp [step_mapSource (h mid hmid), hview]

/-- **Failed reads are invisible**: leaving out any failures of the input leaves the session as it
is. -/
theorem alike_mend (program : Program) (tape : Tape) (source : Source) (sink : Sink)
    (capacity : Option Nat) (heeds : Bool) (fuel : Nat) (actions : List Action)
    (which : Nat → Bool) (past : Bool) :
    Alike withoutFailures fuel actions
      (start program tape (.make (source.mend which past) sink capacity) heeds)
      (start program tape (.make source sink capacity) heeds) := by
  have hview : ∀ m : Machine, m.withoutFailures.withoutFailures = m.withoutFailures := by
    intro m
    rw [withoutFailures, withoutFailures, mapSource_mapSource]
    congr 1
    funext s
    exact s.withoutFailures_withoutFailures
  -- both are like the session without any failures
  have hboth : ∀ s : Source, Alike withoutFailures fuel actions
      (start program tape (.make s.withoutFailures sink capacity) heeds)
      (start program tape (.make s sink capacity) heeds) := by
    intro s
    rw [← start_mapSource]
    exact alike_mapSource hview fun mid _ c _ => Source.findsSame_withoutFailures c.source
  have hmended := (hboth (source.mend which past)).symm
  rw [Source.withoutFailures_mend] at hmended
  exact hmended.trans (hboth source)

theorem forgetInput_mapSource (f : Source → Source) (m : Machine) :
    (m.mapSource f).forgetInput = m.forgetInput := mapSource_mapSource _ _ m

/-- **If every read fails**, all that is seen of the input is its cancels. -/
theorem alike_emptied (program : Program) (tape : Tape) (source : Source) (sink : Sink)
    (capacity : Option Nat) (heeds : Bool)
    (h : ∀ mid ∈ (start program tape (.make source sink capacity) heeds).trail fuel actions,
      ∀ c, mid.reading? = some c → c.source.read.1.byte? = none) :
    Alike forgetInput fuel actions
      (start program tape (.make source.emptied sink capacity) heeds)
      (start program tape (.make source sink capacity) heeds) := by
  rw [← start_mapSource]
  exact alike_mapSource (forgetInput_mapSource _)
    fun mid hmid c hc => Source.findsSame_emptied (h mid hmid c hc)

/-- **If every read fails** and does no more, nothing at all is seen of the input. -/
theorem alike_empty (program : Program) (tape : Tape) (source : Source) (sink : Sink)
    (capacity : Option Nat) (heeds : Bool)
    (h : ∀ mid ∈ (start program tape (.make source sink capacity) heeds).trail fuel actions,
      ∀ c, mid.reading? = some c → c.source.read.1.byte? = none ∧ c.source.read.2.1 = false) :
    Alike forgetInput fuel actions
      (start program tape (.make (.ofBytes []) sink capacity) heeds)
      (start program tape (.make source sink capacity) heeds) := by
  rw [← start_mapSource program tape source sink capacity heeds fun _ => .ofBytes []]
  refine alike_mapSource (forgetInput_mapSource _) ?_
  intro mid hmid c hc
  obtain ⟨hbyte, hcancels⟩ := h mid hmid c hc
  exact Source.findsSame_empty hbyte hcancels

end Machine

end Brainfuck
