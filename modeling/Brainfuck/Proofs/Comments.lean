import Brainfuck.Proofs.Run
import Brainfuck.Proofs.Scan

/-!
# Comments never matter

A program and the same program without its comments run alike. An index of the one text
corresponds to its rank in the other, the number of commands before it: a comment is a step
that moves the index and leaves its rank, and every other step is the same on both texts.

* `Program.closerAfter?_rank`, `Program.openerBefore?_rank`: jumps land on the same brackets.
* `Machine.Silent.step`, `Machine.step_withoutComments`: the two kinds of steps.
* `Machine.returns_withoutComments_iff`: the runs return the same.
-/

namespace Brainfuck

/-- The bytes that are commands: `><+-.,[]`. -/
def commandBytes : List UInt8 := [0x3E, 0x3C, 0x2B, 0x2D, 0x2E, 0x2C, openByte, closeByte]

/-- Is the byte a command, and no comment? -/
def isCommand (b : UInt8) : Bool := commandBytes.contains b

theorem ofByte_of_comment {b : UInt8} (h : isCommand b = false) : Opcode.ofByte b = .noOp := by
  simp [isCommand, commandBytes] at h
  simp [Opcode.ofByte, h]

namespace Program

/-- The program with its comments left out. -/
def withoutComments (p : Program) : Program := ⟨p.bytes.filter isCommand⟩

/-- The number of commands among the first `k` bytes. -/
def rank (p : Program) (k : Nat) : Nat := (p.text.take k).countP isCommand

variable {p : Program} {i : Nat} {b : UInt8}

theorem text_withoutComments (p : Program) :
    p.withoutComments.text = p.text.filter isCommand := Array.toList_filter

theorem rank_add (p : Program) (i k : Nat) :
    p.rank (i + k) = p.rank i + ((p.text.drop i).take k).countP isCommand := by
  rw [rank, List.take_add, List.countP_append, rank]

theorem rank_succ (h : p.byteAt? i = some b) :
    p.rank (i + 1) = p.rank i + if isCommand b then 1 else 0 := by
  rw [rank_add, take_one_drop_text h, List.countP_singleton]

/-- The text without comments, parted at a rank. -/
theorem text_withoutComments_eq_append (p : Program) (i : Nat) :
    p.withoutComments.text =
      (p.text.take i).filter isCommand ++ (p.text.drop i).filter isCommand := by
  rw [text_withoutComments, ← List.filter_append, List.take_append_drop]

theorem drop_rank (p : Program) (i : Nat) :
    p.withoutComments.text.drop (p.rank i) = (p.text.drop i).filter isCommand := by
  rw [text_withoutComments_eq_append p i, rank, List.countP_eq_length_filter, List.drop_left]

theorem take_rank (p : Program) (i : Nat) :
    p.withoutComments.text.take (p.rank i) = (p.text.take i).filter isCommand := by
  rw [text_withoutComments_eq_append p i, rank, List.countP_eq_length_filter, List.take_left]

/-- A command stands at its rank in the text without comments. -/
theorem byteAt?_rank (h : p.byteAt? i = some b) (hb : isCommand b = true) :
    p.withoutComments.byteAt? (p.rank i) = some b := by
  rw [byteAt?_eq_text] at h ⊢
  obtain ⟨hlt, rfl⟩ := List.getElem?_eq_some_iff.1 h
  have hdrop := drop_rank p i
  rw [List.drop_eq_getElem_cons hlt, List.filter_cons_of_pos hb] at hdrop
  rw [← List.head?_drop, hdrop]
  rfl

theorem byteAt?_rank_of_end (h : p.byteAt? i = none) :
    p.withoutComments.byteAt? (p.rank i) = none := by
  rw [byteAt?_eq_text] at h ⊢
  rw [← List.head?_drop, drop_rank, List.drop_eq_nil_of_le (List.getElem?_eq_none_iff.1 h)]
  rfl

/-- **A jump forward lands on the same bracket** in the text without comments. -/
theorem closerAfter?_rank (h : p.byteAt? i = some b) (hb : isCommand b = true) :
    p.withoutComments.closerAfter? (p.rank i) = (p.closerAfter? i).map p.rank := by
  have hsucc : p.rank i + 1 = p.rank (i + 1) := by rw [rank_succ h, hb, if_pos rfl]
  rw [closerAfter?_eq_partner?, closerAfter?_eq_partner?, hsucc, drop_rank,
    partner?_filter (by decide) (by decide), Option.map_map, Option.map_map]
  congr 1
  funext k
  rw [Function.comp, Function.comp, Nat.add_comm k (i + 1), rank_add p (i + 1) k, Nat.add_comm]

/-- A jump forward lands past a close. -/
theorem byteAt?_of_closerAfter? {j : Nat} (h : p.closerAfter? i = some j) :
    p.byteAt? j = some closeByte := by
  rw [closerAfter?_eq_partner?] at h
  obtain ⟨k, hk, rfl⟩ := Option.map_eq_some_iff.1 h
  have hget := getElem?_of_partner? hk
  rw [List.getElem?_drop] at hget
  rw [byteAt?_eq_text, Nat.add_comm]
  exact hget

theorem le_size_of_byteAt? (h : p.byteAt? i = some b) : i ≤ p.bytes.size :=
  Nat.le_of_lt (Array.getElem?_eq_some_iff.1 h).1

/-- What a scan to the left has passed over: `k` bytes behind the open where it stopped. -/
theorem passed_of_openerBefore? (hle : i ≤ p.bytes.size) {k : Nat}
    (hk : partner? closeByte openByte 0 (p.text.take i).reverse = some k) :
    k < i ∧ p.byteAt? (i - 1 - k) = some openByte := by
  have hget := getElem?_of_partner? hk
  obtain ⟨hlt, -⟩ := List.getElem?_eq_some_iff.1 hget
  rw [List.length_reverse, List.length_take, length_text, Nat.min_eq_left hle] at hlt
  rw [List.getElem?_reverse (by simpa [hle] using hlt), List.length_take, length_text,
    Nat.min_eq_left hle, List.getElem?_take_of_lt (by omega), ← byteAt?_eq_text] at hget
  exact ⟨hlt, hget⟩

/-- A jump backward lands past an open. -/
theorem byteAt?_of_openerBefore? {j : Nat} (hle : i ≤ p.bytes.size)
    (h : p.openerBefore? i = some j) : p.byteAt? j = some openByte := by
  rw [openerBefore?_eq_partner? _ hle] at h
  obtain ⟨k, hk, rfl⟩ := Option.map_eq_some_iff.1 h
  exact (passed_of_openerBefore? hle hk).2

/-- **A jump backward lands on the same bracket** in the text without comments. -/
theorem openerBefore?_rank (hle : i ≤ p.bytes.size) :
    p.withoutComments.openerBefore? (p.rank i) = (p.openerBefore? i).map p.rank := by
  have hrank : p.rank i ≤ p.withoutComments.bytes.size := by
    rw [← length_text, text_withoutComments, rank, ← List.countP_eq_length_filter]
    exact (List.take_sublist i p.text).countP_le
  rw [openerBefore?_eq_partner? _ hle, openerBefore?_eq_partner? _ hrank, take_rank,
    ← List.filter_reverse, partner?_filter (by decide) (by decide), Option.map_map,
    Option.map_map]
  cases hk : partner? closeByte openByte 0 (p.text.take i).reverse with
  | none => rfl
  | some k =>
    obtain ⟨hlt, hopen⟩ := passed_of_openerBefore? hle hk
    -- the commands before the start are those passed over and those up to the open
    have hcount : p.rank i =
        ((p.text.take i).reverse.take k).countP isCommand + p.rank (i - k) := by
      rw [rank, ← List.countP_reverse, ← List.take_append_drop k (p.text.take i).reverse,
        List.countP_append, List.take_append_drop, List.drop_reverse, List.countP_reverse,
        List.length_take, length_text, Nat.min_eq_left hle, List.take_take,
        Nat.min_eq_left (by omega), rank]
    have hstep := rank_succ hopen
    rw [show i - 1 - k + 1 = i - k by omega, if_pos (by decide)] at hstep
    simp only [Option.map_some, Function.comp, Option.some.injEq]
    omega

end Program

namespace Machine

/-- The machine on its program without comments, at the corresponding index. -/
def withoutComments (m : Machine) : Machine :=
  m.relocate m.program.withoutComments m.program.rank

variable {m last : Machine} {b : UInt8}

/-- Will the next step pass over a comment? -/
def Silent (m : Machine) : Prop :=
  m.isCancelled = false ∧ ∃ b, m.program.byteAt? m.ip = some b ∧ isCommand b = false

/-- **A comment is a silent step**: it leaves the machine without comments where it is. -/
theorem Silent.step (h : m.Silent) :
    m.step = (.ok .next, m.next) ∧ m.next.withoutComments = m.withoutComments := by
  obtain ⟨hc, b, hb, hcomment⟩ := h
  constructor
  · rw [step_of_byte hc hb, ofByte_of_comment hcomment]
    rfl
  · have hrank : m.program.rank (m.ip + 1) = m.program.rank m.ip := by
      rw [Program.rank_succ hb, hcomment]
      rfl
    simp [withoutComments, relocate, next, hrank]

/-- Only so many comments stand in a row: after some silent steps one comes that is not. -/
theorem exists_not_silent (m : Machine) :
    ∃ mid, m.LeadsTo mid ∧ ¬ mid.Silent ∧ mid.withoutComments = m.withoutComments := by
  by_cases h : m.Silent
  · obtain ⟨hstep, hsame⟩ := h.step
    obtain ⟨mid, hmid, hawake, hwithout⟩ := exists_not_silent m.next
    exact ⟨mid, (LeadsTo.of_next hstep).trans hmid, hawake, hwithout.trans hsame⟩
  · exact ⟨m, .refl m, h, rfl⟩
termination_by m.program.bytes.size - m.ip
decreasing_by
  obtain ⟨-, b, hb, -⟩ := h
  obtain ⟨hlt, -⟩ := Array.getElem?_eq_some_iff.1 hb
  simp only [next]
  omega

/-- Carrying out a command goes alike on both texts. -/
theorem execute_withoutComments (hb : m.program.byteAt? m.ip = some b)
    (hcommand : isCommand b = true) :
    m.withoutComments.execute (.ofByte b) =
      ((m.execute (.ofByte b)).1.mapError (.mapIp m.program.rank),
        (m.execute (.ofByte b)).2.withoutComments) := by
  have hsucc : m.program.rank (m.ip + 1) = m.program.rank m.ip + 1 := by
    rw [Program.rank_succ hb, if_pos hcommand]
  have hafter : (m.execute (.ofByte b)).2.withoutComments =
      (m.execute (.ofByte b)).2.relocate m.program.withoutComments m.program.rank := by
    rw [withoutComments, program_execute]
  have hle := Program.le_size_of_byteAt? hb
  -- a jump lands just past a bracket, so the rank of its end is one more than the bracket's
  have hpast : ∀ k side, m.program.byteAt? k = some side → isCommand side = true →
      m.program.rank (k + 1) = m.program.rank k + 1 := by
    intro k side hk hside
    rw [Program.rank_succ hk, if_pos hside]
  rw [hafter]
  refine execute_relocate_of_partner _ m _ hsucc ?_ ?_ ?_
  · intro _
    exact Program.closerAfter?_rank hb hcommand
  · intro _
    exact Program.openerBefore?_rank hle
  · rintro k (hk | hk)
    · exact hpast k _ (Program.byteAt?_of_closerAfter? hk) (by decide)
    · exact hpast k _ (Program.byteAt?_of_openerBefore? hle hk) (by decide)

/-- **Any other step** is the step of the machine without comments. -/
theorem step_withoutComments (h : ¬ m.Silent) :
    m.withoutComments.step =
      (m.step.1.mapError (.mapIp m.program.rank), m.step.2.withoutComments) := by
  refine step_mapError rfl rfl Program.byteAt?_rank_of_end ?_
  intro b hc hb
  have hcommand : isCommand b = true := by
    cases hcomment : isCommand b with
    | true => rfl
    | false => exact absurd ⟨hc, b, hb, hcomment⟩ h
  exact ⟨b, Program.byteAt?_rank hb hcommand, execute_withoutComments hb hcommand⟩

/-- The steps of a machine, without those that are silent, are the steps of the machine without
comments. -/
theorem steps_withoutComments {fuel : Nat} {result : Except RunError Unit}
    (h : m.steps fuel = some (result, last)) :
    last.program = m.program ∧ ∃ fuel', m.withoutComments.steps fuel' =
      some (result.mapError (.mapIp m.program.rank), last.withoutComments) := by
  induction fuel generalizing m with
  | zero => simp [steps] at h
  | succ fuel ih =>
    by_cases hsilent : m.Silent
    · -- the machine without comments stays where it is, and needs no step
      obtain ⟨hstep, hsame⟩ := hsilent.step
      rw [steps_of_next hstep] at h
      rw [← hsame]
      exact ih h
    · have hwithout := step_withoutComments hsilent
      have hprogram := program_step m
      rcases hs : m.step with ⟨e | (_ | _), mid⟩ <;> rw [hs] at hwithout hprogram
      · rw [steps_of_error hs] at h
        cases h
        exact ⟨hprogram, 1, steps_of_error hwithout 0⟩
      · rw [steps_of_next hs] at h
        obtain ⟨hlast, fuel', hsteps⟩ := ih h
        rw [hprogram] at hlast hsteps
        exact ⟨hlast, fuel' + 1, by rw [steps_of_next hwithout]; exact hsteps⟩
      · rw [steps_of_halted hs] at h
        cases h
        exact ⟨hprogram, 1, steps_of_halted hwithout 0⟩

/-- If the machine without comments gets to an end, so does the machine. -/
theorem exists_steps_of_withoutComments {fuel : Nat} {r : Except RunError Unit × Machine}
    (h : m.withoutComments.steps fuel = some r) : ∃ fuel' r', m.steps fuel' = some r' := by
  induction fuel generalizing m with
  | zero => simp [steps] at h
  | succ fuel ih =>
    -- behind the comments that stand here, both take the same step
    obtain ⟨mid, hlead, hmid, hsame⟩ := exists_not_silent m
    have hwithout := step_withoutComments hmid
    rw [← hsame] at h
    have hends : ∃ fuel' r', mid.steps fuel' = some r' := by
      rcases hs : mid.step with ⟨e | (_ | _), after⟩ <;> rw [hs] at hwithout
      · exact ⟨1, _, steps_of_error hs 0⟩
      · rw [steps_of_next hwithout] at h
        obtain ⟨fuel', r', hafter⟩ := ih h
        exact ⟨fuel' + 1, r', by rw [steps_of_next hs, hafter]⟩
      · exact ⟨1, _, steps_of_halted hs 0⟩
    obtain ⟨fuel', r', hr⟩ := hends
    obtain ⟨fuel'', hr'⟩ := hlead.steps_of_steps hr
    exact ⟨fuel'', r', hr'⟩

theorem finish_withoutComments (result : Except RunError Unit) (m : Machine) :
    m.withoutComments.finish (result.mapError (.mapIp m.program.rank)) =
      ((m.finish result).1.mapError (.mapIp m.program.rank),
        (m.finish result).2.relocate m.program.withoutComments m.program.rank) :=
  finish_relocate result m _ _

/-- **Comments never matter.** The run of a program returns if and only if the run of the program
without comments does. They then return the same result, except that an index reported by the
one is its rank, the number of commands before it, in the other. They leave the same machine,
with the index at its rank: the tape, the input left, the sink, the buffer, the cancel flag and
the transcript of calls are the same. And the jump from a bracket lands on the same bracket. -/
theorem returns_withoutComments_iff (p : Program) (tape : Tape) (console : Console)
    (heeds : Bool) :
    (∀ r w, (start p.withoutComments tape console heeds).Returns r w ↔
      ∃ result after, (start p tape console heeds).Returns result after ∧
        r = result.mapError (.mapIp p.rank) ∧
        w = { after with program := p.withoutComments, ip := p.rank after.ip }) ∧
    (∀ i, p.byteAt? i = some openByte →
      p.withoutComments.closerAfter? (p.rank i) = (p.closerAfter? i).map p.rank) ∧
    (∀ i, p.byteAt? i = some closeByte →
      p.withoutComments.openerBefore? (p.rank i) = (p.openerBefore? i).map p.rank) := by
  have hstart : (start p tape console heeds).withoutComments =
      start p.withoutComments tape console heeds := rfl
  -- what the run returns, the run without comments returns
  have forward : ∀ result after, (start p tape console heeds).Returns result after →
      (start p.withoutComments tape console heeds).Returns (result.mapError (.mapIp p.rank))
        (after.relocate p.withoutComments p.rank) := by
    intro result after h
    obtain ⟨fuel, result', last, hs, hf⟩ := returns_iff.1 h
    obtain ⟨hprogram, fuel', hs'⟩ := steps_withoutComments hs
    have hp : last.program = p := hprogram
    have hf' := finish_withoutComments result' last
    rw [hf, hp] at hf'
    exact returns_iff.2 ⟨fuel', _, _, hs', hf'⟩
  refine ⟨?_, ?_, ?_⟩
  · intro r w
    constructor
    · intro h
      obtain ⟨fuel, result', last', hs, -⟩ := returns_iff.1 h
      rw [← hstart] at hs
      obtain ⟨fuel', ⟨result, last⟩, hs'⟩ := exists_steps_of_withoutComments hs
      have hret := returns_iff.2 ⟨fuel', result, last, hs', rfl⟩
      obtain ⟨hr, hw⟩ := h.unique (forward _ _ hret)
      exact ⟨_, _, hret, hr, hw⟩
    · rintro ⟨result, after, h, rfl, rfl⟩
      exact forward result after h
  · intro i hi
    exact Program.closerAfter?_rank hi (by decide)
  · intro i hi
    exact Program.openerBefore?_rank (Program.le_size_of_byteAt? hi)

/-- The close has no partner, which both runs report, each at its own index. -/
theorem returns_withoutComments_of_unmatched :
    ∃ result after,
      (start (.ofString "+ a]") (.blank 1) (.make (.ofBytes []) .accepting none) true).Returns
        result after ∧
      (start (Program.withoutComments (.ofString "+ a]")) (.blank 1)
        (.make (.ofBytes []) .accepting none) true).Returns
        (.error (.unmatchedBracket 1 .closing)) { after with
          program := Program.withoutComments (.ofString "+ a]")
          ip := 2 } := by
  have hrun : ((start (.ofString "+ a]") (.blank 1) (.make (.ofBytes []) .accepting none)
      true).run 9).map (fun r => (r.1, r.2.ip)) =
      some (.error (.unmatchedBracket 3 .closing), 4) := by cbv
  obtain ⟨⟨result, after⟩, h, heq⟩ := Option.map_eq_some_iff.1 hrun
  obtain ⟨rfl, hip⟩ := Prod.mk.inj heq
  obtain ⟨hret, -, -⟩ := returns_withoutComments_iff (.ofString "+ a]") (.blank 1)
    (.make (.ofBytes []) .accepting none) true
  refine ⟨_, after, ⟨9, h⟩, (hret _ _).2 ⟨_, after, ⟨9, h⟩, by cbv, ?_⟩⟩
  have hip' : after.ip = 4 := hip
  rw [hip']
  rfl

end Machine

end Brainfuck
