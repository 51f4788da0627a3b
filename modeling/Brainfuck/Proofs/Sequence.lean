import Brainfuck.Proofs.Loops

/-!
# One program behind another

A well-bracketed text does the same with any text behind it, since its scans stop before they
come there. A text does the same behind a well-bracketed one, since no scan stops in the latter;
only the indexes are larger. So two programs, one behind the other, run one after the other.

* `Program.closerAfter?_append_left`, `Program.openerBefore?_append_left`: the brackets of the
  first text find the same partners.
* `Program.closerAfter?_append_right`, `Program.openerBefore?_append_right`: so do those of the
  second.
* `Machine.step_withTextBehind`, `Machine.step_withTextBefore`: steps in the two texts.
* `Machine.append_runs_in_sequence`: any number of steps, and runs.
-/

namespace Brainfuck

namespace Program

instance : Append Program := ⟨fun p q => ⟨p.bytes ++ q.bytes⟩⟩

variable {p q : Program} {i j : Nat} {b : UInt8}

@[simp] theorem bytes_append (p q : Program) : (p ++ q).bytes = p.bytes ++ q.bytes := rfl

theorem text_append (p q : Program) : (p ++ q).text = p.text ++ q.text := Array.toList_append

theorem byteAt?_append_left (h : i < p.bytes.size) : (p ++ q).byteAt? i = p.byteAt? i :=
  Array.getElem?_append_left h

theorem byteAt?_append_right (p q : Program) (i : Nat) :
    (p ++ q).byteAt? (i + p.bytes.size) = q.byteAt? i := by
  unfold byteAt?
  rw [bytes_append, Array.getElem?_append_right (Nat.le_add_left _ _), Nat.add_sub_cancel]

/-- **An open of the first text** finds its close there. -/
theorem closerAfter?_append_left (hp : WellBracketed p.text) (h : p.byteAt? i = some openByte) :
    (p ++ q).closerAfter? i = p.closerAfter? i := by
  obtain ⟨j, hpair⟩ := exists_pair_of_open hp h
  have hlt : i < p.bytes.size := (Array.getElem?_eq_some_iff.1 h).1
  have hj := (closerAfter?_eq_some_iff h).2 hpair
  rw [closerAfter?_eq_partner?] at hj
  obtain ⟨k, hk, rfl⟩ := Option.map_eq_some_iff.1 hj
  rw [closerAfter?_eq_partner?, closerAfter?_eq_partner?, text_append,
    List.drop_append_of_le_length (by rw [length_text]; exact hlt), hk,
    partner?_append_of_some hk]

/-- **A close of the first text** looks at nothing behind it. -/
theorem openerBefore?_append_left (h : j ≤ p.bytes.size) :
    (p ++ q).openerBefore? j = p.openerBefore? j := by
  have hle : j ≤ (p ++ q).bytes.size := by
    rw [bytes_append, Array.size_append]
    omega
  rw [openerBefore?_eq_partner? _ hle, openerBefore?_eq_partner? _ h, text_append,
    List.take_append_of_le_length (by rw [length_text]; exact h)]

/-- **An open of the second text** looks at nothing before it. -/
theorem closerAfter?_append_right (p q : Program) (i : Nat) :
    (p ++ q).closerAfter? (i + p.bytes.size) = (q.closerAfter? i).map (· + p.bytes.size) := by
  have hdrop : (p ++ q).text.drop (i + p.bytes.size + 1) = q.text.drop (i + 1) := by
    rw [text_append, ← length_text, Nat.add_right_comm, Nat.add_comm,
      List.drop_length_add_append]
  rw [closerAfter?_eq_partner?, closerAfter?_eq_partner?, hdrop, Option.map_map]
  congr 1
  funext k
  simp only [Function.comp]
  omega

/-- **A close of the second text** finds no open in the first, since none is left over there. -/
theorem openerBefore?_append_right (hp : WellBracketed p.text) (h : j ≤ q.bytes.size) :
    (p ++ q).openerBefore? (j + p.bytes.size) = (q.openerBefore? j).map (· + p.bytes.size) := by
  have hle : j + p.bytes.size ≤ (p ++ q).bytes.size := by
    rw [bytes_append, Array.size_append]
    omega
  have htake : (p ++ q).text.take (j + p.bytes.size) = p.text ++ q.text.take j := by
    rw [text_append, ← length_text, Nat.add_comm, List.take_length_add_append]
  have hnone : ∀ depth, partner? closeByte openByte depth p.text.reverse = none := by
    intro depth
    have hscan := partner?_append_reverse hp depth []
    rwa [List.append_nil] at hscan
  rw [openerBefore?_eq_partner? _ hle, openerBefore?_eq_partner? _ h, htake, List.reverse_append,
    partner?_append_of_none hnone]
  -- what is found is found in the second text, which gives room for the shift
  cases hk : partner? closeByte openByte 0 (q.text.take j).reverse with
  | none => rfl
  | some k =>
    have hlt := (List.getElem?_eq_some_iff.1 (getElem?_of_partner? hk)).1
    rw [List.length_reverse, length_take_text h] at hlt
    simp only [Option.map_some, Option.some.injEq]
    omega

end Program

namespace Machine

/-- The machine with more text behind its program. -/
def withTextBehind (q : Program) (m : Machine) : Machine := m.relocate (m.program ++ q) id

/-- The machine with more text before its program, and the index on the same instruction. -/
def withTextBefore (p : Program) (m : Machine) : Machine :=
  m.relocate (p ++ m.program) (· + p.bytes.size)

variable {m last : Machine} {p q : Program}

/-- **A step in a well-bracketed text** is the same with any text behind it. -/
theorem step_withTextBehind (hp : WellBracketed m.program.text) (h : m.step.1 ≠ .ok .halted)
    (q : Program) : (m.withTextBehind q).step = (m.step.1, m.step.2.withTextBehind q) := by
  rcases step_cases m with ⟨hc, hs⟩ | ⟨-, -, hs⟩ | ⟨b, hc, hb, hs⟩
  · rw [hs]
    exact step_of_cancelled hc
  · rw [hs] at h
    exact absurd rfl h
  · have hlt : m.ip < m.program.bytes.size := (Array.getElem?_eq_some_iff.1 hb).1
    have hbehind : (m.program ++ q).byteAt? m.ip = some b := by
      rw [Program.byteAt?_append_left hlt, hb]
    have hexecute : (m.withTextBehind q).execute (.ofByte b) =
        ((m.execute (.ofByte b)).1, (m.execute (.ofByte b)).2.withTextBehind q) := by
      have hsame := execute_relocate_of_partner (.ofByte b) m (m.program ++ q) (f := id) rfl ?_ ?_
        (fun k _ => rfl)
      · rw [mapError_eq_self RunError.mapIp_id] at hsame
        rw [withTextBehind, hsame, withTextBehind, program_execute]
      · intro hop
        rw [Option.map_id]
        have hopen : m.program.byteAt? m.ip = some openByte := by rw [hb, Opcode.eq_openByte hop]
        exact Program.closerAfter?_append_left hp hopen
      · intro _
        rw [Option.map_id]
        exact Program.openerBefore?_append_left (Nat.le_of_lt hlt)
    rw [hs, step_of_byte (m := m.withTextBehind q) hc hbehind, hexecute]

/-- **A step behind a well-bracketed text** is the same, with larger indexes. -/
theorem step_withTextBefore (hp : WellBracketed p.text) (m : Machine) :
    (m.withTextBefore p).step =
      (m.step.1.mapError (.mapIp (· + p.bytes.size)), m.step.2.withTextBefore p) := by
  have hbyte : (m.withTextBefore p).program.byteAt? (m.withTextBefore p).ip =
      m.program.byteAt? m.ip := Program.byteAt?_append_right p m.program m.ip
  refine step_mapError rfl rfl hbyte.trans ?_
  intro b _ hb
  have hle : m.ip ≤ m.program.bytes.size := Nat.le_of_lt (Array.getElem?_eq_some_iff.1 hb).1
  refine ⟨b, hbyte.trans hb, ?_⟩
  rw [withTextBefore, withTextBefore, program_execute]
  refine execute_relocate_of_partner _ m _ (Nat.add_right_comm _ _ _) ?_ ?_
    (fun k _ => Nat.add_right_comm _ _ _)
  · intro _
    exact Program.closerAfter?_append_right p m.program m.ip
  · intro _
    exact Program.openerBefore?_append_right hp hle

theorem step_ne_halted (h : m.ip < m.program.bytes.size) : m.step.1 ≠ .ok .halted := by
  rcases step_cases m with ⟨-, hs⟩ | ⟨-, hb, -⟩ | ⟨b, -, -, hs⟩
  · rw [hs]
    nofun
  · exact absurd h (Nat.not_lt.2 ((Program.byteAt?_eq_none_iff _ _).1 hb))
  · rw [hs]
    cases (m.execute (.ofByte b)).1 <;> nofun

theorem after_withTextBehind (hp : WellBracketed m.program.text) (q : Program) {n : Nat}
    (h : ∀ k < n, (m.after k).step.1 ≠ .ok .halted) :
    (m.withTextBehind q).after n = (m.after n).withTextBehind q := by
  refine after_map ?_
  intro k hk
  rw [step_withTextBehind (by rwa [program_after]) (h k hk)]

theorem leadsTo_withTextBehind (hp : WellBracketed m.program.text) (q : Program) {k : Nat}
    (h : m.Proceeds k) : (m.withTextBehind q).LeadsTo ((m.after k).withTextBehind q) := by
  have hnext : ∀ j < k, (m.after j).step.1 ≠ .ok .halted := by
    intro j hj
    rw [h j hj]
    nofun
  have hafter : ∀ j ≤ k, (m.withTextBehind q).after j = (m.after j).withTextBehind q :=
    fun j hj => after_withTextBehind hp q fun i hi => hnext i (by omega)
  rw [← hafter k (Nat.le_refl k)]
  apply LeadsTo.of_proceeds
  intro j hj
  rw [hafter j (by omega), step_withTextBehind (by rwa [program_after]) (hnext j hj)]
  exact h j hj

theorem after_withTextBefore (hp : WellBracketed p.text) (m : Machine) (n : Nat) :
    (m.withTextBefore p).after n = (m.after n).withTextBefore p := by
  refine after_map ?_
  intro k _
  rw [step_withTextBefore hp]

theorem steps_withTextBefore (hp : WellBracketed p.text) (m : Machine) (fuel : Nat) :
    (m.withTextBefore p).steps fuel = (m.steps fuel).map fun r =>
      (r.1.mapError (.mapIp (· + p.bytes.size)), r.2.withTextBefore p) :=
  steps_mapError fun k _ _ => step_withTextBefore hp (m.after k)

theorem finish_withTextBefore (p : Program) (result : Except RunError Unit) (m : Machine) :
    (m.withTextBefore p).finish (result.mapError (.mapIp (· + p.bytes.size))) =
      ((m.finish result).1.mapError (.mapIp (· + p.bytes.size)),
        (m.finish result).2.withTextBefore p) := by
  rw [withTextBefore, finish_relocate, withTextBefore, program_finish]

/-- **A run behind a well-bracketed text** is the same, with larger indexes. -/
theorem run_withTextBefore (hp : WellBracketed p.text) (m : Machine) (fuel : Nat) :
    (m.withTextBefore p).run fuel = (m.run fuel).map fun r =>
      (r.1.mapError (.mapIp (· + p.bytes.size)), r.2.withTextBefore p) :=
  run_mapError (steps_withTextBefore hp m fuel) (finish_withTextBefore p)

/-- **A well-bracketed text that fails** does so with any text behind it. -/
theorem steps_withTextBehind_of_error (hp : WellBracketed m.program.text) (q : Program)
    {fuel : Nat} {e : RunError} (h : m.steps fuel = some (.error e, last)) :
    ∃ fuel', (m.withTextBehind q).steps fuel' = some (.error e, last.withTextBehind q) := by
  obtain ⟨k, -, hproceeds, hlast⟩ := exists_last_step h
  have hstep := step_of_last_error hlast
  have hbehind := step_withTextBehind (m := m.after k) (by rwa [program_after])
    (by rw [hstep]; nofun) q
  rw [hstep] at hbehind
  exact (leadsTo_withTextBehind hp q hproceeds).steps_of_steps (steps_of_error hbehind 0)

/-- A machine at the joint of two texts has the first before it. -/
theorem withTextBefore_start (hprogram : m.program = p ++ q) (hip : m.ip = p.bytes.size) :
    (start q m.tape m.console m.heeds).withTextBefore p = m := by
  obtain ⟨program, tape, ip, console, heeds⟩ := m
  simp only at hprogram hip
  subst hprogram hip
  simp [start, withTextBefore, relocate]

/-- **A well-bracketed text that comes to its end** hands its tape and its console on to the text
behind it. -/
theorem leadsTo_of_steps_ok (hp : WellBracketed m.program.text) (q : Program)
    (hle : m.ip ≤ m.program.bytes.size) {fuel : Nat} (h : m.steps fuel = some (.ok (), last)) :
    (m.withTextBehind q).LeadsTo
      ((start q last.tape last.console m.heeds).withTextBefore m.program) := by
  obtain ⟨k, -, hproceeds, hlast⟩ := exists_last_step h
  obtain ⟨rfl, hend⟩ := eq_of_last_ok hlast
  have hprogram := program_after (m := m) k
  have hsize := ip_after_le hle k
  rw [Program.byteAt?_eq_none_iff, hprogram] at hend
  -- the index has come to the joint, and can be counted from there
  have hjoint : (start q (m.after k).tape (m.after k).console m.heeds).withTextBefore m.program =
      (m.after k).withTextBehind q := by
    rw [← heeds_after k]
    exact withTextBefore_start (m := (m.after k).withTextBehind q)
      (congrArg (· ++ q) hprogram) (Nat.le_antisymm hsize hend)
  rw [hjoint]
  exact leadsTo_withTextBehind hp q hproceeds

theorem returns_withTextBefore_iff (hp : WellBracketed p.text) {r : Except RunError Unit}
    {w : Machine} : (m.withTextBefore p).Returns r w ↔
      ∃ r' w', m.Returns r' w' ∧ r = r'.mapError (.mapIp (· + p.bytes.size)) ∧
        w = w'.withTextBefore p := by
  unfold Returns
  constructor
  · rintro ⟨fuel, h⟩
    rw [run_withTextBefore hp] at h
    obtain ⟨⟨r', w'⟩, hrun, heq⟩ := Option.map_eq_some_iff.1 h
    cases heq
    exact ⟨r', w', ⟨fuel, hrun⟩, rfl, rfl⟩
  · rintro ⟨r', w', ⟨fuel, hrun⟩, rfl, rfl⟩
    exact ⟨fuel, by rw [run_withTextBefore hp, hrun, Option.map_some]⟩

/-- **Two programs run one after the other.** Let `p` be a well-bracketed program and `q` any other.

From the start, `p` with `q` behind it takes the same steps as `p` alone as long as the index is in
`p`: they answer the same, and come to the same index, tape and console, which holds the input left,
the output, the flag and all calls.

From any state at the end of `p`, the two take the same steps as `q` alone from its start with this
tape and console, except that each index, also the one in an error, is larger by the length of `p`.
So the index never falls below this length again, and a close of `q` without a partner has none
behind `p` either.

A run of both thus ends as `p` does, if `p` fails; if it comes to its end, it returns what `q`
returns on the tape and the console that `p` has left. -/
theorem append_runs_in_sequence (p q : Program) (hp : WellBracketed p.text) :
    (∀ tape console heeds n,
      (∀ k < n, ((start p tape console heeds).after k).ip < p.bytes.size) →
      (∀ k < n, ((start (p ++ q) tape console heeds).after k).step.1 =
        ((start p tape console heeds).after k).step.1) ∧
      ∀ k ≤ n,
        ((start (p ++ q) tape console heeds).after k).ip =
          ((start p tape console heeds).after k).ip ∧
        ((start (p ++ q) tape console heeds).after k).tape =
          ((start p tape console heeds).after k).tape ∧
        ((start (p ++ q) tape console heeds).after k).console =
          ((start p tape console heeds).after k).console) ∧
    (∀ m : Machine, m.program = p ++ q → m.ip = p.bytes.size → ∀ n,
      (m.after n).step.1 =
        ((start q m.tape m.console m.heeds).after n).step.1.mapError
          (.mapIp (· + p.bytes.size)) ∧
      (m.after n).ip = ((start q m.tape m.console m.heeds).after n).ip + p.bytes.size ∧
      (m.after n).tape = ((start q m.tape m.console m.heeds).after n).tape ∧
      (m.after n).console = ((start q m.tape m.console m.heeds).after n).console ∧
      p.bytes.size ≤ (m.after n).ip) ∧
    (∀ j, q.byteAt? j = some closeByte → q.openerBefore? j = none →
      (p ++ q).openerBefore? (j + p.bytes.size) = none) ∧
    (∀ tape console heeds fuel last,
      (∀ e, (start p tape console heeds).steps fuel = some (.error e, last) →
        (start (p ++ q) tape console heeds).Returns (.error e)
          (last.withTextBehind q).flush.2) ∧
      ((start p tape console heeds).steps fuel = some (.ok (), last) → ∀ r w,
        (start (p ++ q) tape console heeds).Returns r w ↔
          ∃ r' w', (start q last.tape last.console heeds).Returns r' w' ∧
            r = r'.mapError (.mapIp (· + p.bytes.size)) ∧ w = w'.withTextBefore p)) := by
  have hstart : ∀ tape console heeds, start (p ++ q) tape console heeds =
      (start p tape console heeds).withTextBehind q := fun _ _ _ => rfl
  refine ⟨?_, ?_, ?_, ?_⟩
  · intro tape console heeds n hin
    have hinside : ∀ k < n, ((start p tape console heeds).after k).step.1 ≠ .ok .halted := by
      intro k hk
      apply step_ne_halted
      rw [program_after]
      exact hin k hk
    have hafter : ∀ k ≤ n, (start (p ++ q) tape console heeds).after k =
        ((start p tape console heeds).after k).withTextBehind q := by
      intro k hk
      rw [hstart]
      exact after_withTextBehind hp q fun j hj => hinside j (by omega)
    constructor
    · intro k hk
      have hprogram : WellBracketed ((start p tape console heeds).after k).program.text := by
        rwa [program_after]
      rw [hafter k (Nat.le_of_lt hk), step_withTextBehind hprogram (hinside k hk)]
    · intro k hk
      rw [hafter k hk]
      exact ⟨rfl, rfl, rfl⟩
  · intro m hprogram hip n
    have hafter := after_withTextBefore hp (start q m.tape m.console m.heeds) n
    rw [withTextBefore_start hprogram hip] at hafter
    rw [hafter, step_withTextBefore hp]
    exact ⟨rfl, rfl, rfl, rfl, Nat.le_add_left _ _⟩
  · intro j hj hnone
    have hle : j ≤ q.bytes.size := Nat.le_of_lt (Array.getElem?_eq_some_iff.1 hj).1
    rw [Program.openerBefore?_append_right hp hle, hnone]
    rfl
  · intro tape console heeds fuel last
    constructor
    · intro e h
      obtain ⟨fuel', hsteps⟩ :=
        steps_withTextBehind_of_error (m := start p tape console heeds) hp q h
      exact returns_iff.2 ⟨fuel', .error e, _, hsteps, rfl⟩
    · intro h r w
      have hlead := leadsTo_of_steps_ok (m := start p tape console heeds) hp q (Nat.zero_le _) h
      rw [hstart, hlead.returns_iff]
      exact returns_withTextBefore_iff hp

/-- The second program is a close without a partner. Behind a loop it fails as it does alone, with
the index of the close in the whole text. -/
theorem append_runs_in_sequence_of_unmatched :
    let p : Program := .ofString "+[->+<]>"
    let q : Program := .ofString ".]"
    let console := Console.make (.ofBytes []) .accepting none
    WellBracketed p.text ∧ q.openerBefore? 1 = none ∧ (p ++ q).openerBefore? 9 = none ∧
    ∃ w : Machine, (start (p ++ q) (.blank 2) console true).Returns
      (.error (.unmatchedBracket 9 .closing)) (w.withTextBefore p) := by
  intro p q console
  have hplain : ∀ {b : UInt8} {rest : List UInt8}, b ≠ openByte ∧ b ≠ closeByte →
      WellBracketed rest → WellBracketed (b :: rest) := fun h => .plain h.1 h.2
  have hbody : WellBracketed [0x2D, 0x3E, 0x2B, 0x3C] :=
    hplain (by decide) (hplain (by decide) (hplain (by decide) (hplain (by decide) .nil)))
  have hp : WellBracketed p.text :=
    hplain (by decide) (.loop hbody (hplain (by decide) .nil))
  have hnone : q.openerBefore? 1 = none := by cbv
  obtain ⟨-, -, hunmatched, hruns⟩ := append_runs_in_sequence p q hp
  have hend : (start p (.blank 2) console true).steps 9 =
      some (.ok (), (start p (.blank 2) console true).after 8) := by cbv
  obtain ⟨w, hw⟩ : ∃ w, (start q ((start p (.blank 2) console true).after 8).tape
      ((start p (.blank 2) console true).after 8).console true).run 2 =
        some (.error (.unmatchedBracket 1 .closing), w) := ⟨_, by cbv⟩
  have hboth := (hruns (.blank 2) console true 9 _).2 hend
  exact ⟨hp, hnone, hunmatched 1 (by cbv) hnone, w, (hboth _ _).2 ⟨_, w, ⟨2, hw⟩, rfl, rfl⟩⟩

end Machine

end Brainfuck
