import Mathlib
import Brainfuck.Proofs.Scan
import Brainfuck.Report

/-!
# Excerpts

A report shows the bytes of the text within 32 of a position, clipped to the text, and a caret in
the position's column. With bounds in the integers this is one range, whether the position is in
the text, just past it or far past it. The bounds of the program are indices, and the upper one is
reckoned before it is clipped: from the last 33 indices on there is no report at all.

* `Program.slice`: the bytes of a range of integers.
* `Excerpt.around?_eq`, `Excerpt.around?_eq_none`: the excerpt, and where there is none.
* `Excerpt.Shows`, `Excerpt.shows_row`: the characters of the window, one by one.
* `Excerpt.renders_if_end_is_index`: the report of a position.
-/

namespace Brainfuck

namespace Program

variable {p : Program} {s e : Int}

/-- The bytes of the text from one integer up to another. -/
def slice (p : Program) (s e : Int) : List UInt8 := (p.text.take e.toNat).drop s.toNat

theorem length_slice (h : e ≤ p.size) : (p.slice s e).length = e.toNat - s.toNat := by
  have hsize : p.size = p.bytes.size := rfl
  simp only [slice, List.length_drop, List.length_take, length_text]
  omega

theorem getElem?_slice {d : Nat} (h : s.toNat + d < e.toNat) :
    (p.slice s e)[d]? = p.byteAt? (s.toNat + d) := by
  rw [slice, List.getElem?_drop, List.getElem?_take_of_lt h, byteAt?_eq_text]

theorem slice_eq_nil (h : e ≤ s) : p.slice s e = [] := by
  refine List.drop_eq_nil_of_le ?_
  have hlength := p.text.length_take_le e.toNat
  omega

end Program

namespace Excerpt

variable {code : Program} {pos : Nat} {b : UInt8}

/-- The characters of the window around a position. -/
def row (code : Program) (pos : Nat) : List Char :=
  (code.slice (max 0 (pos - 32)) (min (pos + 33) code.size)).map shown

/-- The characters of the line below it. -/
def pointer (pos : Nat) : List Char := List.replicate (min pos 32) ' ' ++ ['^']

theorem around?_eq (h : pos + 33 < indexBound) :
    around? code pos = some ⟨.ofList (row code pos), .ofList (pointer pos)⟩ := by
  have hfirst : (max 0 ((pos : Int) - 32)).toNat = start pos := by
    simp only [start, radius]
    omega
  have hlast : (min ((pos : Int) + 33) code.size).toNat = min (stop pos) code.size := by
    simp only [stop, radius]
    omega
  have hcolumn : pos - start pos = min pos 32 := by
    simp only [start, radius]
    omega
  have hbytes : (code.bytes.extract (start pos) (min (stop pos) code.size)).toList =
      code.slice (max 0 (pos - 32)) (min (pos + 33) code.size) := by
    rw [Array.toList_extract, List.extract_eq_take_drop, Program.slice, hfirst, hlast,
      List.drop_take]
    rfl
  have hstop : stop pos < indexBound := h
  rw [around?, if_pos hstop]
  simp only [hbytes, hcolumn]
  rfl

theorem around?_eq_none (h : indexBound ≤ pos + 33) : around? code pos = none :=
  if_neg (Nat.not_lt.2 h)

theorem shown_of_visible (h : 0x21 ≤ b.toNat ∧ b.toNat ≤ 0x7E) :
    shown b = Char.ofNat b.toNat :=
  if_pos h

theorem shown_of_not_visible (h : ¬(0x21 ≤ b.toNat ∧ b.toNat ≤ 0x7E)) : shown b = ' ' :=
  if_neg h

/-- A byte shows as a printable ASCII character. -/
theorem printable_shown (b : UInt8) : 0x20 ≤ (shown b).toNat ∧ (shown b).toNat ≤ 0x7E := by
  by_cases h : 0x21 ≤ b.toNat ∧ b.toNat ≤ 0x7E
  · have hvalid : b.toNat.isValidChar := .inl (by omega)
    rw [shown_of_visible h, Char.toNat_ofNat, if_pos hvalid]
    omega
  · rw [shown_of_not_visible h]
    decide

/-- A command shows as the character it is written with. -/
theorem shown_of_symbol {c : Char} (h : (Opcode.ofByte b).symbol? = some c) : shown b = c := by
  unfold Opcode.ofByte at h
  split_ifs at h with h₁ h₂ h₃ h₄ h₅ h₆ h₇ h₈ <;> subst_vars <;> cases h <;> decide

/-- What a window of characters shows of the text around a position. -/
structure Shows (code : Program) (pos : Nat) (window : List Char) : Prop where
  printable : ∀ c ∈ window, 0x20 ≤ c.toNat ∧ c.toNat ≤ 0x7E
  short : window.length ≤ 65
  /-- The column of the position is `min pos 32`, and the others show what stands to its left and
  to its right. -/
  column : ∀ d < window.length, ∃ b, code.byteAt? (pos - min pos 32 + d) = some b ∧
    window[d]? = some (if 0x21 ≤ b.toNat ∧ b.toNat ≤ 0x7E then Char.ofNat b.toNat else ' ')
  covers : ∀ k < code.size, k ≤ pos + 32 → pos ≤ k + 32 →
    ∃ d < window.length, k = pos - min pos 32 + d

theorem length_row (code : Program) (pos : Nat) :
    (row code pos).length = min (pos + 33) code.size - (pos - 32) := by
  rw [row, List.length_map, Program.length_slice (Int.min_le_right _ _)]
  omega

theorem getElem?_row {d : Nat} (h : d < (row code pos).length) :
    (row code pos)[d]? = (code.byteAt? (pos - min pos 32 + d)).map shown := by
  rw [length_row] at h
  have hfirst : (max 0 ((pos : Int) - 32)).toNat = pos - min pos 32 := by omega
  rw [row, List.getElem?_map, Program.getElem?_slice (by omega), hfirst]

/-- The character above the caret is that of the byte at the position, if there is one. -/
theorem getElem?_row_column (code : Program) (pos : Nat) :
    (row code pos)[min pos 32]? = (code.byteAt? pos).map shown := by
  have hlength := length_row code pos
  by_cases hpos : pos < code.size
  · have hcolumn : min pos 32 < (row code pos).length := by omega
    have hback : pos - min pos 32 + min pos 32 = pos := by omega
    rw [getElem?_row hcolumn, hback]
  · have hnone : code.byteAt? pos = none := (code.byteAt?_eq_none_iff pos).2 (by omega)
    rw [hnone, Option.map_none, List.getElem?_eq_none_iff]
    omega

theorem shows_row (code : Program) (pos : Nat) : Shows code pos (row code pos) where
  printable c hc := by
    obtain ⟨b, -, rfl⟩ := List.mem_map.1 hc
    exact printable_shown b
  short := by
    rw [length_row]
    omega
  column d hd := by
    have hcell := getElem?_row hd
    rw [List.getElem?_eq_getElem hd] at hcell ⊢
    obtain ⟨b, hb, hshown⟩ := Option.map_eq_some_iff.1 hcell.symm
    exact ⟨b, hb, congrArg some hshown.symm⟩
  covers k hk hright hleft := by
    refine ⟨k - (pos - min pos 32), ?_, by omega⟩
    rw [length_row]
    omega

theorem locatedReport?_eq (subject : String) (h : pos + 33 < indexBound) :
    locatedReport? subject code pos = some
      (subject ++ " at instruction " ++ toString pos ++ "\n" ++
        "  " ++ .ofList (row code pos) ++ "\n" ++ "  " ++ .ofList (pointer pos) ++ "\n") := by
  rw [locatedReport?, around?_eq h]
  rfl

/-- **The report of a position** shows the bytes from 32 before it to 32 behind it as far as there
are any, and a caret in its column, for a position in the text or however far past it, if the place
one past the window is an index. If that is too high for an index, there is no report. -/
theorem renders_if_end_is_index (subject : String) (code : Program) (pos : Nat) :
    let s : Int := max 0 (pos - 32)
    let e : Int := min (pos + 33) code.size
    (pos + 33 < indexBound → locatedReport? subject code pos = some
      (subject ++ " at instruction " ++ toString pos ++ "\n" ++
        "  " ++ .ofList ((code.slice s e).map shown) ++ "\n" ++
        "  " ++ .ofList (List.replicate (min pos 32) ' ' ++ ['^']) ++ "\n")) ∧
    (e ≤ s → (code.slice s e).map shown = []) ∧
    (indexBound ≤ pos + 33 → locatedReport? subject code pos = none) := by
  refine ⟨locatedReport?_eq subject, fun h => ?_, fun h => ?_⟩
  · rw [Program.slice_eq_nil h, List.map_nil]
  · rw [locatedReport?, around?_eq_none h]
    rfl

/-- Just past the end of the text, and at the highest index that has a report. -/
theorem renders_past_the_end :
    locatedReport? "x" (.ofString "+]") 5 =
      some "x at instruction 5\n  +]\n       ^\n" ∧
    locatedReport? "x" (.ofString "+]") 0xFFFFFFFFFFFFFFDE =
      some "x at instruction 18446744073709551582\n  \n                                  ^\n" ∧
    locatedReport? "x" (.ofString "+]") 0xFFFFFFFFFFFFFFDF = none := by
  obtain ⟨hnear, -, -⟩ := renders_if_end_is_index "x" (.ofString "+]") 5
  obtain ⟨hhigh, -, -⟩ := renders_if_end_is_index "x" (.ofString "+]") 0xFFFFFFFFFFFFFFDE
  obtain ⟨-, -, hnone⟩ := renders_if_end_is_index "x" (.ofString "+]") 0xFFFFFFFFFFFFFFDF
  refine ⟨(hnear (by decide)).trans ?_, (hhigh (by decide)).trans ?_, hnone (by decide)⟩
  · cbv
  · cbv

/-- The highest index has no report: its window is empty, but the index just past the window would
be too high. -/
theorem no_report_at_top :
    let pos : Nat := 0xFFFFFFFFFFFFFFFF
    pos < indexBound ∧
    (Program.ofString "+]").slice (max 0 (pos - 32)) (min (pos + 33) 2) = [] ∧
    locatedReport? "x" (.ofString "+]") pos = none := by
  intro pos
  have hnone : around? (.ofString "+]") pos = none := around?_eq_none (by decide)
  refine ⟨by decide, Program.slice_eq_nil (by decide), ?_⟩
  rw [locatedReport?, hnone]
  rfl

end Excerpt

end Brainfuck
