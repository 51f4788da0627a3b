import Brainfuck.Proofs.Excerpt
import Brainfuck.Proofs.Failure
import Brainfuck.Proofs.Safety
import Brainfuck.Text.Split

/-!
# Carets

The report of an error that a session has answered is three lines, and its caret stands below the
instruction that failed. The index of the machine is one further by then; the error kept the place.
Only an error of a closing flush stands at no instruction, and its caret is just past the text.

* `OneLine`: a text without newlines; `splitOn_lines`: lines come apart again.
* `RunError.oneLine_subject`, `splitOn_locatedReport?`: the lines of a report.
* `RunError.Marks`: the characters an error can be about.
* `Machine.marks_of_fails`: an instruction that fails is written with one of them.
* `Machine.caret_points_at_failing_opcode`: where the carets of a session stand.
-/

namespace Brainfuck

/-- A text without newlines. -/
def OneLine (s : String) : Prop := '\n' ∉ s.toList

instance (s : String) : Decidable (OneLine s) := inferInstanceAs (Decidable ('\n' ∉ s.toList))

namespace OneLine

theorem append {s t : String} (hs : OneLine s) (ht : OneLine t) : OneLine (s ++ t) := by
  unfold OneLine
  rw [String.toList_append, List.mem_append]
  exact not_or.2 ⟨hs, ht⟩

theorem ofNat (n : Nat) : OneLine (toString n) := by
  intro h
  have hdigits : (toString n).toList = Nat.toDigits 10 n := by simp
  have hdigit := Nat.isDigit_of_mem_toDigits (by decide) (by decide) (hdigits ▸ h)
  revert hdigit
  decide

end OneLine

/-- Lines without newlines, each ended by one, come apart into themselves and nothing behind. -/
theorem splitOn_lines {lines : List (List Char)} (h : ∀ line ∈ lines, '\n' ∉ line) :
    splitOn '\n' (lines.flatMap (· ++ ['\n'])) = lines ++ [[]] := by
  induction lines with
  | nil => rfl
  | cons line rest ih =>
    have hline : splitOn '\n' line = [line] := splitOn_of_not_mem (h line List.mem_cons_self)
    have hrest := ih fun line hmem => h line (List.mem_cons_of_mem _ hmem)
    rw [List.flatMap_cons, List.append_assoc, List.singleton_append, splitOn_append, hline, hrest,
      List.singleton_append, List.cons_append]

namespace RunError

variable {e : RunError} {reporter : Option String}

theorem oneLine_headline (h : ∀ ip cause, e = .output ip cause → OneLine cause.message) :
    OneLine e.headline := by
  cases e with
  | outOfBounds ip cursor op =>
    have hop : OneLine op.text := by cases op <;> decide
    have hcursor : OneLine ("Runtime error: pointer out of bounds (ptr=" ++ toString cursor) :=
      .append (by decide) (.ofNat cursor)
    exact ((hcursor.append (by decide)).append hop).append (by decide)
  | unmatchedBracket ip side =>
    have hside : OneLine side.text := by cases side <;> decide
    exact OneLine.append (by decide) hside
  | output ip cause => exact OneLine.append (by decide) (h ip cause rfl)
  | interrupted => decide

/-- The headline of an error, under the reporter's name if there is one. -/
def subject (reporter : Option String) (e : RunError) : String :=
  match reporter with
  | some name => name ++ ": " ++ e.headline
  | none => e.headline

/-- The characters of the instructions that an error can be about. -/
def Marks : RunError → Char → Prop
  | .outOfBounds _ _ op, c => (c = '>' ∧ op = .moveRight) ∨ (c = '<' ∧ op = .moveLeft)
  | .unmatchedBracket _ side, c => (c = '[' ∧ side = .opening) ∨ (c = ']' ∧ side = .closing)
  | .output _ _, c => c = '.' ∨ c = ','
  | .interrupted, _ => False

theorem oneLine_subject (hname : ∀ name, reporter = some name → OneLine name)
    (hcause : ∀ ip cause, e = .output ip cause → OneLine cause.message) :
    OneLine (e.subject reporter) := by
  have hheadline := oneLine_headline hcause
  cases reporter with
  | none => exact hheadline
  | some name => exact ((hname name rfl).append (by decide)).append hheadline

theorem report?_eq {i : Nat} (hi : e.ip? = some i) (program : Program) :
    report? reporter program e = locatedReport? (e.subject reporter) program i := by
  unfold report?
  rw [hi]
  rfl

end RunError

/-- **The report of a position is three lines**, whatever bytes the text contains. -/
theorem splitOn_locatedReport? {subject : String} {pos : Nat} (hsubject : OneLine subject)
    (hpos : pos + 33 < indexBound) (code : Program) :
    ∃ text, locatedReport? subject code pos = some text ∧
      splitOn '\n' text.toList =
        [(subject ++ " at instruction " ++ toString pos).toList,
          ' ' :: ' ' :: Excerpt.row code pos, ' ' :: ' ' :: Excerpt.pointer pos, []] := by
  have hfirst : OneLine (subject ++ " at instruction " ++ toString pos) :=
    (hsubject.append (by decide)).append (.ofNat pos)
  have hrow : '\n' ∉ ' ' :: ' ' :: Excerpt.row code pos := by
    have hprintable := (Excerpt.shows_row code pos).printable '\n'
    have hnewline : ¬(0x20 ≤ '\n'.toNat) := by decide
    have hmem : '\n' ∉ Excerpt.row code pos := fun hmem => hnewline (hprintable hmem).1
    simp [hmem]
  have hpointer : '\n' ∉ ' ' :: ' ' :: Excerpt.pointer pos := by simp [Excerpt.pointer]
  have hlines : ∀ line ∈ [(subject ++ " at instruction " ++ toString pos).toList,
      ' ' :: ' ' :: Excerpt.row code pos, ' ' :: ' ' :: Excerpt.pointer pos], '\n' ∉ line := by
    simp only [List.forall_mem_cons]
    exact ⟨hfirst, hrow, hpointer, List.forall_mem_nil _⟩
  refine ⟨_, Excerpt.locatedReport?_eq subject hpos, ?_⟩
  refine Eq.trans (congrArg (splitOn '\n') ?_) (splitOn_lines hlines)
  simp

namespace Machine

variable {m last : Machine} {op : Opcode} {e : RunError} {i fuel : Nat} {actions : List Action}
  {answer : Answer} {answers : List Answer}

/-- **An instruction that fails** is written with a character that its error can be about. -/
theorem marks_of_fails (h : m.Fails op e) : ∃ c, op.symbol? = some c ∧ e.Marks c := by
  cases op with
  | moveRight =>
    obtain ⟨-, rfl⟩ := h
    exact ⟨'>', rfl, .inl ⟨rfl, rfl⟩⟩
  | moveLeft =>
    obtain ⟨-, rfl⟩ := h
    exact ⟨'<', rfl, .inr ⟨rfl, rfl⟩⟩
  | openLoop =>
    obtain ⟨-, -, rfl⟩ := h
    exact ⟨'[', rfl, .inl ⟨rfl, rfl⟩⟩
  | closeLoop =>
    obtain ⟨-, -, rfl⟩ := h
    exact ⟨']', rfl, .inr ⟨rfl, rfl⟩⟩
  | output =>
    obtain ⟨_, -, rfl⟩ := h
    exact ⟨'.', rfl, .inl rfl⟩
  | input =>
    obtain ⟨_, -, rfl⟩ := h
    exact ⟨',', rfl, .inr rfl⟩
  | increment => exact h.elim
  | decrement => exact h.elim
  | noOp => exact h.elim

/-- A step that fails in some place fails at an instruction there, which is above the caret of its
report. -/
theorem caret_of_step_error (hs : m.step.1 = .error e) (hi : e.ip? = some i) :
    m.ip = i ∧ ∃ op c, m.program.opAt? i = some op ∧ op.symbol? = some c ∧ e.Marks c ∧
      (Excerpt.row m.program i)[min i 32]? = some c := by
  obtain rfl := ip_of_step_error hs hi
  rcases step_eq_error_iff.1 hs with ⟨-, rfl⟩ | ⟨-, op, hop, hfails⟩
  · cases hi
  · obtain ⟨c, hc, hmarks⟩ := marks_of_fails hfails
    obtain ⟨b, hb, hbyte⟩ := Program.opAt?_eq_some_iff.1 hop
    refine ⟨rfl, op, c, hop, hc, hmarks, ?_⟩
    rw [Excerpt.getElem?_row_column, hb, Option.map_some, Excerpt.shown_of_symbol (hbyte ▸ hc)]

/-- An error that an action answers is that of the instruction at its place, or that of a closing
flush behind the text. -/
theorem place_of_raises (hle : m.ip ≤ m.program.size) (h : m.Raises e answer)
    (hi : e.ip? = some i) :
    m.ip = i ∧
      ((i < m.program.size ∧ m.step.1 = .error e ∧ ∃ op c, m.program.opAt? i = some op ∧
          op.symbol? = some c ∧ e.Marks c ∧ (Excerpt.row m.program i)[min i 32]? = some c) ∨
        (i = m.program.size ∧ m.step.1 = .ok .halted ∧ m.flush.1 = .error e ∧
          answer = .ran (.error e) ∧ (∃ cause, e = .output i cause) ∧
          (Excerpt.row m.program i).length = min i 32)) := by
  rcases h with hs | ⟨hs, hf, hran⟩
  · obtain ⟨hip, op, c, hop, habove⟩ := caret_of_step_error hs hi
    obtain ⟨b, hb, -⟩ := Program.opAt?_eq_some_iff.1 hop
    have hlt : i < m.program.size := (Array.getElem?_eq_some_iff.1 hb).1
    exact ⟨hip, .inl ⟨hlt, hs, op, c, hop, habove⟩⟩
  · obtain ⟨-, hend⟩ := step_eq_halted_iff.1 hs
    have hge := (Program.byteAt?_eq_none_iff _ _).1 hend
    obtain ⟨cause, -, rfl⟩ := flush_eq_error_iff.1 hf
    cases hi
    have hlength := Excerpt.length_row m.program m.ip
    exact ⟨rfl, .inr ⟨by omega, hs, hf, hran, ⟨cause, rfl⟩, by omega⟩⟩

/-- **The caret of a run error points at the failing opcode.** Let a session have answered an error
that has a place, and let the length of the text leave room for a window among the indices, as that
of any text in memory does. Let the name of the reporter and the words of the output's refusal be
without newlines.

Then the report of the error is three lines, whatever bytes the text contains: the headline, which
ends in the place, and under an indent of two spaces the window and the caret. The window is
printable ASCII and shows the bytes within 32 of the place, one in each column; the caret is in the
column of the place.

If the place is in the text, a step has failed there, and above the caret is the character that its
instruction is written with: that of the move for a move off the tape, that of the bracket for a
bracket without a partner, and `.` or `,` for the output. Otherwise it is just past the text, with
nothing above the caret, and the error is that of the closing flush of a run that has halted. -/
theorem caret_points_at_failing_opcode (reporter : Option String) (program : Program) (tape : Tape)
    (console : Console) (heeds : Bool) (hsize : program.size + 33 < indexBound)
    (hname : ∀ name, reporter = some name → OneLine name)
    (h : (start program tape console heeds).performAll fuel actions = some (answers, last))
    (ha : answer ∈ answers) (he : answer.error? = some e) (hi : e.ip? = some i)
    (hcause : ∀ ip cause, e = .output ip cause → OneLine cause.message) :
    ∃ text window caret, report? reporter program e = some text ∧
      splitOn '\n' text.toList =
        [(e.subject reporter ++ " at instruction " ++ toString i).toList,
          ' ' :: ' ' :: window, ' ' :: ' ' :: caret, []] ∧
      Excerpt.Shows program i window ∧
      caret = List.replicate (min i 32) ' ' ++ ['^'] ∧
      ∃ mid ∈ (start program tape console heeds).trail fuel actions, mid.ip = i ∧
        ((i < program.size ∧ mid.step.1 = .error e ∧ ∃ op c, program.opAt? i = some op ∧
            op.symbol? = some c ∧ e.Marks c ∧ window[min i 32]? = some c) ∨
          (i = program.size ∧ mid.step.1 = .ok .halted ∧ mid.flush.1 = .error e ∧
            answer = .ran (.error e) ∧ (∃ cause, e = .output i cause) ∧
            window.length = min i 32)) := by
  obtain ⟨mid, hmid, hraises⟩ := raises_of_performAll h ha he
  have hstart : (start program tape console heeds).raw.InBounds program tape.capacity :=
    ⟨rfl, rfl, Nat.zero_le _, tape.cursor_lt⟩
  have hbounds := invariant_inBounds.trail hstart mid hmid
  have htext : mid.program = program := hbounds.text
  have hle : mid.ip ≤ program.size := hbounds.ip_le
  obtain ⟨hip, hplace⟩ := place_of_raises (htext ▸ hle) hraises hi
  have hsubject : OneLine (e.subject reporter) := RunError.oneLine_subject hname hcause
  have hpos : i + 33 < indexBound := by omega
  obtain ⟨text, hreport, hlines⟩ := splitOn_locatedReport? hsubject hpos program
  refine ⟨text, _, _, (RunError.report?_eq hi program).trans hreport, hlines,
    Excerpt.shows_row program i, rfl, mid, hmid, hip, ?_⟩
  rwa [htext] at hplace

/-- A move off the tape behind a newline, and the closing flush of the run that goes on from it. -/
theorem caret_points_at_failing_opcode_of_full_disk :
    let program := Program.ofString "+\n>"
    let full : FlushItem := .fail (.system 28)
    let sink : Sink := { Sink.accepting with flushes := [full, full] }
    ∃ answers last,
      (start program (.blank 1) (.make (.ofBytes []) sink none) true).performAll 9 [.run, .run] =
        some (answers, last) ∧
      answers = [.ran (.error (.outOfBounds 2 0 .moveRight)),
        .ran (.error (.output 3 (.system 28)))] ∧
      (∃ text window, report? (some "bf") program (.outOfBounds 2 0 .moveRight) = some text ∧
        splitOn '\n' text.toList =
          ["bf: Runtime error: pointer out of bounds (ptr=0, op=>) at instruction 2".toList,
            ' ' :: ' ' :: window, "    ^".toList, []] ∧
        window[2]? = some '>') ∧
      (∃ text window, report? none program (.output 3 (.system 28)) = some text ∧
        splitOn '\n' text.toList =
          ["I/O error: No space left on device (os error 28) at instruction 3".toList,
            ' ' :: ' ' :: window, "     ^".toList, []] ∧
        window.length = 3) := by
  intro program full sink
  obtain ⟨⟨answers, last⟩, hperform⟩ := Option.isSome_iff_exists.1
    (show ((start program (.blank 1) (.make (.ofBytes []) sink none) true).performAll 9
      [.run, .run]).isSome = true by cbv)
  have hanswers : ((start program (.blank 1) (.make (.ofBytes []) sink none) true).performAll 9
      [.run, .run]).map (·.1) = some [.ran (.error (.outOfBounds 2 0 .moveRight)),
        .ran (.error (.output 3 (.system 28)))] := by cbv
  rw [hperform] at hanswers
  obtain rfl := Option.some.inj hanswers
  refine ⟨_, last, hperform, rfl, ?_, ?_⟩
  · obtain ⟨text, window, caret, hreport, hlines, -, rfl, _, -, -, hplace⟩ :=
      caret_points_at_failing_opcode (some "bf") program (.blank 1) (.make (.ofBytes []) sink none)
        true (by decide) (by rintro _ ⟨⟩; decide) hperform List.mem_cons_self rfl rfl
        (by rintro _ _ ⟨⟩)
    refine ⟨text, window, hreport, hlines, ?_⟩
    rcases hplace with ⟨-, -, op, c, hop, hc, -, habove⟩ | ⟨heq, -⟩
    · have hmove : program.opAt? 2 = some .moveRight := by cbv
      rw [hmove] at hop
      cases hop
      cases hc
      exact habove
    · exact absurd heq (by decide)
  · obtain ⟨text, window, caret, hreport, hlines, -, rfl, _, -, -, hplace⟩ :=
      caret_points_at_failing_opcode none program (.blank 1) (.make (.ofBytes []) sink none)
        true (by decide) (by rintro _ ⟨⟩) hperform (List.mem_cons_of_mem _ List.mem_cons_self) rfl
        rfl (by rintro _ _ ⟨⟩; decide)
    refine ⟨text, window, hreport, hlines, ?_⟩
    rcases hplace with ⟨hlt, -⟩ | ⟨-, -, -, -, -, hlength⟩
    · exact absurd hlt (by decide)
    · exact hlength

end Machine

end Brainfuck
