import Brainfuck.Proofs.Pairs
import Brainfuck.Proofs.Run

/-!
# Loops have one entry and one exit

Whatever the brackets around a loop and inside it are, also those without a partner, a run comes
into the loop only through its open, on a cell that is not zero, and leaves it only through its
close, on a zero cell. This holds since pairs of brackets do not cross.

* `Machine.ip_step_cases`, `Machine.ip_step_le`: what a step does to the index.
* `Machine.inside_step`, `Machine.outside_step`: one step from inside and from outside a loop.
* `Machine.exists_exit`, `Machine.exists_entry`: what this means for any number of steps.
* `Machine.loop_one_entry_one_exit`: all of this, with the cell behind the loop.
-/

namespace Brainfuck

namespace Machine

variable {m : Machine} {i j : Nat}

/-- **What a step does to the index**: it stays, if nothing is carried out; it moves on by one,
which a bracket that has to jump does not do if it has a partner; or it jumps. -/
theorem ip_step_cases (m : Machine) :
    m.step.2.ip = m.ip ∨
    (m.step.2.ip = m.ip + 1 ∧ m.ip < m.program.bytes.size ∧
      (∀ j, m.program.Pair m.ip j → m.tape.read ≠ 0) ∧
      (∀ i, m.program.Pair i m.ip → m.tape.read = 0)) ∨
    (∃ j, m.program.Pair m.ip j ∧ m.tape.read = 0 ∧ m.step = (.ok .next, { m with ip := j + 1 })) ∨
    (∃ i, m.program.Pair i m.ip ∧ m.tape.read ≠ 0 ∧
      m.step = (.ok .next, { m with ip := i + 1 })) := by
  rcases step_cases m with ⟨-, hs⟩ | ⟨-, -, hs⟩ | ⟨b, -, hb, hs⟩
  · exact .inl (by rw [hs])
  · exact .inl (by rw [hs])
  right
  rcases ip_execute_cases (.ofByte b) m with
    ⟨hnext, hopen, hclose⟩ | ⟨j, hop, hz, hj, heq⟩ | ⟨i, hop, hz, hi, heq⟩
  · refine .inl ⟨by rw [hs]; exact hnext, (Array.getElem?_eq_some_iff.1 hb).1, ?_, ?_⟩
    · intro j hpair hz
      have hbyte : b = openByte := Option.some.inj (hb.symm.trans hpair.opens)
      have hnone := hopen (by rw [hbyte]; rfl) hz
      rw [(Program.closerAfter?_eq_some_iff hpair.opens).2 hpair] at hnone
      cases hnone
    · intro i hpair
      have hbyte : b = closeByte := Option.some.inj (hb.symm.trans hpair.closes)
      by_contra hz
      have hnone := hclose (by rw [hbyte]; rfl) hz
      rw [(Program.openerBefore?_eq_some_iff hpair.closes).2 hpair] at hnone
      cases hnone
  · have hbyte : m.program.byteAt? m.ip = some openByte := by rw [hb, Opcode.eq_openByte hop]
    refine .inr (.inl ⟨j, (Program.closerAfter?_eq_some_iff hbyte).1 hj, hz, ?_⟩)
    rw [hs, heq]
    rfl
  · have hbyte : m.program.byteAt? m.ip = some closeByte := by rw [hb, Opcode.eq_closeByte hop]
    refine .inr (.inr ⟨i, (Program.openerBefore?_eq_some_iff hbyte).1 hi, hz, ?_⟩)
    rw [hs, heq]
    rfl

/-- The index stays in the text or at its end. -/
theorem ip_step_le (h : m.ip ≤ m.program.bytes.size) : m.step.2.ip ≤ m.program.bytes.size := by
  rcases ip_step_cases m with hip | ⟨hip, hlt, -⟩ | ⟨j, hpair, -, hs⟩ | ⟨i, hpair, -, hs⟩
  · rw [hip]
    exact h
  · rw [hip]
    exact hlt
  · rw [hs]
    exact (Array.getElem?_eq_some_iff.1 hpair.closes).1
  · rw [hs]
    exact (Array.getElem?_eq_some_iff.1 hpair.opens).1

theorem ip_after_le (h : m.ip ≤ m.program.bytes.size) (n : Nat) :
    (m.after n).ip ≤ m.program.bytes.size := by
  induction n with
  | zero => exact h
  | succ n ih =>
    rw [← program_after n] at ih ⊢
    exact ip_step_le ih

/-- Is the next instruction in the loop of an open at `i` and a close at `j`? The close belongs to
the loop, the open does not. -/
def Inside (i j : Nat) (m : Machine) : Prop := i < m.ip ∧ m.ip ≤ j

instance (i j : Nat) (m : Machine) : Decidable (m.Inside i j) :=
  inferInstanceAs (Decidable (_ ∧ _))

/-- **A step from inside a loop** stays in it, or is that of its close on a zero cell. -/
theorem inside_step (h : m.program.Pair i j) (hin : m.Inside i j) :
    m.step.2.Inside i j ∨ m.ip = j ∧ m.tape.read = 0 ∧ m.step.2.ip = j + 1 := by
  obtain ⟨hi, hj⟩ := hin
  unfold Inside
  rcases ip_step_cases m with hip | ⟨hip, -, -, hclose⟩ | ⟨l, hpair, -, hs⟩ | ⟨k, hpair, -, hs⟩
  · left
    omega
  · rcases Nat.lt_or_eq_of_le hj with hlt | heq
    · left
      omega
    · exact .inr ⟨heq, hclose i (heq ▸ h), by omega⟩
  · -- a loop that begins inside ends inside, before the close
    left
    have hne := hpair.opener_ne_closer h
    have hl := h.closer_lt hpair hi (by omega)
    have hlt := hpair.lt
    have hip : m.step.2.ip = l + 1 := by rw [hs]
    omega
  · -- the close of the loop goes back to its open, any other to an open inside
    left
    have hk : i ≤ k := by
      by_contra hki
      rcases Nat.lt_or_eq_of_le hj with hlt | heq
      · have hjk := hpair.closer_lt h (by omega) hi
        omega
      · rw [heq] at hpair
        exact hki (Nat.le_of_eq (h.opener_unique hpair))
    have hlt := hpair.lt
    have hip : m.step.2.ip = k + 1 := by rw [hs]
    omega

/-- **A step from outside a loop** stays outside, or is that of its open on a cell that is not
zero. -/
theorem outside_step (h : m.program.Pair i j) (hout : ¬m.Inside i j) :
    ¬m.step.2.Inside i j ∨ m.ip = i ∧ m.tape.read ≠ 0 ∧ m.step.2.ip = i + 1 := by
  have hij := h.lt
  unfold Inside at hout ⊢
  rcases ip_step_cases m with hip | ⟨hip, -, hopen, -⟩ | ⟨l, hpair, -, hs⟩ | ⟨k, hpair, -, hs⟩
  · left
    omega
  · rcases Nat.lt_trichotomy m.ip i with hlt | heq | hgt
    · left
      omega
    · exact .inr ⟨heq, hopen j (heq ▸ h), by omega⟩
    · left
      omega
  · -- the open of the loop jumps behind it, and a loop that begins before it does not end inside
    left
    have hip : m.step.2.ip = l + 1 := by rw [hs]
    have hlt := hpair.lt
    have hne := h.opener_ne_closer hpair
    rintro ⟨hil, hlj⟩
    rcases Nat.lt_trichotomy m.ip i with hbefore | heq | hgt
    · have hjl := hpair.closer_lt h hbefore (by omega)
      omega
    · rw [heq] at hpair
      have hjl := h.closer_unique hpair
      omega
    · omega
  · -- a loop that ends behind this one does not begin inside
    left
    have hip : m.step.2.ip = k + 1 := by rw [hs]
    have hlt := hpair.lt
    rintro ⟨hik, hkj⟩
    rcases Nat.lt_or_eq_of_le (show i ≤ k by omega) with hinside | rfl
    · have hl := h.closer_lt hpair hinside (by omega)
      omega
    · have hj := h.closer_unique hpair
      omega

/-- **A run leaves a loop** only through its close, on a zero cell. -/
theorem exists_exit (h : m.program.Pair i j) (hin : m.Inside i j) {n : Nat}
    (hout : ¬(m.after n).Inside i j) :
    ∃ k < n, (m.after k).Inside i j ∧ (m.after k).ip = j ∧ (m.after k).tape.read = 0 ∧
      (m.after (k + 1)).ip = j + 1 := by
  induction n with
  | zero => exact absurd hin hout
  | succ n ih =>
    by_cases hn : (m.after n).Inside i j
    · have hpair : (m.after n).program.Pair i j := by rwa [program_after]
      rcases inside_step hpair hn with hstay | hexit
      · exact absurd hstay hout
      · exact ⟨n, Nat.lt_succ_self n, hn, hexit⟩
    · obtain ⟨k, hk, hexit⟩ := ih hn
      exact ⟨k, Nat.lt_succ_of_lt hk, hexit⟩

/-- **A run comes into a loop** only through its open, on a cell that is not zero. -/
theorem exists_entry (h : m.program.Pair i j) (hout : ¬m.Inside i j) {n : Nat}
    (hin : (m.after n).Inside i j) :
    ∃ k < n, ¬(m.after k).Inside i j ∧ (m.after k).ip = i ∧ (m.after k).tape.read ≠ 0 ∧
      (m.after (k + 1)).ip = i + 1 := by
  induction n with
  | zero => exact absurd hin hout
  | succ n ih =>
    by_cases hn : (m.after n).Inside i j
    · obtain ⟨k, hk, hentry⟩ := ih hn
      exact ⟨k, Nat.lt_succ_of_lt hk, hentry⟩
    · have hpair : (m.after n).program.Pair i j := by rwa [program_after]
      rcases outside_step hpair hn with hstay | hentry
      · exact absurd hin hstay
      · exact ⟨n, Nat.lt_succ_self n, hn, hentry⟩

theorem tape_step_of_bracket {b : UInt8} (h : m.program.byteAt? m.ip = some b)
    (hb : b = openByte ∨ b = closeByte) : m.step.2.tape = m.tape := by
  rcases step_cases m with ⟨-, hs⟩ | ⟨-, -, hs⟩ | ⟨b', -, hb', hs⟩
  · rw [hs]
  · rw [hs]
  · rw [h] at hb'
    cases hb'
    rw [hs]
    apply tape_execute_of_bracket
    rcases hb with rfl | rfl
    · exact .inl rfl
    · exact .inr rfl

/-- **Behind a loop the cell is zero**, whichever of its brackets has passed control there. -/
theorem zero_of_passed (h : m.program.Pair i j) (hip : m.ip = i ∨ m.ip = j)
    (hnext : m.step.2.ip = j + 1) : m.tape.read = 0 ∧ m.step.2.tape = m.tape := by
  have hij := h.lt
  rcases hip with hip | hip
  · refine ⟨?_, tape_step_of_bracket (by rw [hip]; exact h.opens) (.inl rfl)⟩
    rcases ip_step_cases m with hstay | ⟨hmove, -⟩ | ⟨l, -, hz, -⟩ | ⟨k, hpair, -, hs⟩
    · omega
    · omega
    · exact hz
    · exact absurd hip.symm (h.opener_ne_closer hpair)
  · refine ⟨?_, tape_step_of_bracket (by rw [hip]; exact h.closes) (.inr rfl)⟩
    rcases inside_step h ⟨by omega, by omega⟩ with hstay | ⟨-, hz, -⟩
    · have hle := hstay.2
      omega
    · exact hz

/-- **A loop has one entry and one exit.** Let a seek from behind an open at `i` land behind a close
at `j`, in any program, also one with other brackets that have no partner, and let the machine be
in any state.

A step from inside the loop, whatever it answers, stays inside or comes to just behind it, and does
the latter only as the step of the close at `j` on a zero cell. A step from outside comes inside
only as the step of the open at `i` on a cell that is not zero, and then to just behind this open.
So whenever one of the two brackets passes control to behind the loop, the cell is zero.

The same holds of any number of steps: a run that was inside the loop and is outside has left it
through the close, and one that was outside and is inside has come through the open. -/
theorem loop_one_entry_one_exit (m : Machine) {i j : Nat}
    (h : m.program.seekForward (i + 1) = .ok (j + 1)) :
    (m.Inside i j →
      i < m.step.2.ip ∧ m.step.2.ip ≤ j + 1 ∧
      (m.step.2.ip = j + 1 →
        m.ip = j ∧ m.program.byteAt? j = some closeByte ∧ m.tape.read = 0)) ∧
    (¬m.Inside i j → m.step.2.Inside i j →
      m.ip = i ∧ m.program.byteAt? i = some openByte ∧ m.tape.read ≠ 0 ∧ m.step.2.ip = i + 1) ∧
    (m.ip = i ∨ m.ip = j → m.step.2.ip = j + 1 → m.tape.read = 0 ∧ m.step.2.tape = m.tape) ∧
    (∀ n, m.Inside i j → ¬(m.after n).Inside i j →
      ∃ k < n, (m.after k).Inside i j ∧ (m.after k).ip = j ∧ (m.after k).tape.read = 0 ∧
        (m.after (k + 1)).ip = j + 1) ∧
    (∀ n, ¬m.Inside i j → (m.after n).Inside i j →
      ∃ k < n, ¬(m.after k).Inside i j ∧ (m.after k).ip = i ∧ (m.after k).tape.read ≠ 0 ∧
        (m.after (k + 1)).ip = i + 1) := by
  have hpair := Program.seekForward_eq_ok_iff.1 h
  refine ⟨?_, ?_, zero_of_passed hpair, fun n hin hout => exists_exit hpair hin hout,
    fun n hout hin => exists_entry hpair hout hin⟩
  · intro hin
    have hi := hin.1
    have hj := hin.2
    rcases inside_step hpair hin with ⟨hlt, hle⟩ | ⟨hip, hz, hnext⟩
    · exact ⟨hlt, by omega, fun hnext => absurd hle (by omega)⟩
    · exact ⟨by omega, by omega, fun _ => ⟨hip, hpair.closes, hz⟩⟩
  · intro hout hin
    rcases outside_step hpair hout with hstay | ⟨hip, hz, hnext⟩
    · exact absurd hin hstay
    · exact ⟨hip, hpair.opens, hz, hnext⟩

/-- The text before the loop and the text behind it each have a bracket without a partner. The run
comes into the loop through its open and leaves it through its close. -/
theorem loop_one_entry_one_exit_of_unbalanced :
    let m := start (.ofString "]+[[-]][") (.blank 1) (.make (.ofBytes []) .accepting none) true
    m.program.seekForward 3 = .ok 7 ∧
    ¬m.Inside 2 6 ∧ (m.after 3).Inside 2 6 ∧ ¬((m.after 3).after 4).Inside 2 6 ∧
    (∃ k < 3, (m.after k).ip = 2 ∧ (m.after k).tape.read ≠ 0) ∧
    (∃ k < 4, ((m.after 3).after k).ip = 6 ∧ ((m.after 3).after k).tape.read = 0) := by
  intro m
  have hloop : m.program.seekForward 3 = .ok 7 := by cbv
  have hbefore : ¬m.Inside 2 6 := by decide
  have hin : (m.after 3).Inside 2 6 := by cbv
  have hbehind : ¬((m.after 3).after 4).Inside 2 6 := by cbv
  have hloop' : (m.after 3).program.seekForward 3 = .ok 7 := by rw [program_after, hloop]
  obtain ⟨-, -, -, -, hentry⟩ := loop_one_entry_one_exit m (i := 2) (j := 6) hloop
  obtain ⟨-, -, -, hexit, -⟩ := loop_one_entry_one_exit (m.after 3) (i := 2) (j := 6) hloop'
  obtain ⟨k, hk, -, hip, hcell, -⟩ := hentry 3 hbefore hin
  obtain ⟨k', hk', -, hip', hcell', -⟩ := hexit 4 hin hbehind
  exact ⟨hloop, hbefore, hin, hbehind, ⟨k, hk, hip, hcell⟩, k', hk', hip', hcell'⟩

end Machine

end Brainfuck
