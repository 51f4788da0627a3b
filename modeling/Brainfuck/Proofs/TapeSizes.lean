import Brainfuck.Proofs.Assignments
import Brainfuck.Proofs.Values

/-!
# Tape sizes in texts

A tape size is written in decimal digits, any number of them, with one plus sign in front or none.
Underscores may stand anywhere in it, and blanks around it. Blanks are taken away before the
underscores are, so a blank behind an underscore is in the way.

* `FileSettings.readTapeSize?_of_toDigits`: the digits of a number read as the number.
* `FileSettings.GivesTapeSize`, `FileSettings.tapeSize_of_givesTapeSize`: a line of a settings file
  that gives one.
* `FileSettings.tape_size_format`: all of it.
-/

namespace Brainfuck

theorem isBlank_of_isDigit {c : Char} (h : c.isDigit) : isBlank c = false := by
  have hrange : 48 ≤ c.toNat ∧ c.toNat ≤ 57 := by
    simpa [Char.isDigit, UInt32.le_iff_toNat_le] using h
  simp only [isBlank, Bool.or_eq_false_iff, Bool.and_eq_false_iff, decide_eq_false_iff_not,
    beq_eq_false_iff_ne]
  omega

namespace FileSettings

variable {w value above line below before after : List Char} {n : Nat}

/-- A line gives a text as the tape size: the key, an equals sign and the text, in double quotes or
not, with blanks around them. -/
def GivesTapeSize (line w : List Char) : Prop :=
  ∃ indent gap left value right, line = indent ++ (tapeSizeKey ++ gap) ++
      '=' :: (left ++ value ++ right) ∧
    (value = w ∨ value = '"' :: (w ++ ['"'])) ∧
    ∀ c ∈ indent ++ gap ++ left ++ right, isBlank c

theorem trim_quoted (w : List Char) : trim ('"' :: (w ++ ['"'])) = '"' :: (w ++ ['"']) := by
  have hquote : isBlank '"' = false := by decide
  have htrim := trim_append_cons hquote [] (w ++ ['"'])
  rw [trimRight_append_cons hquote] at htrim
  exact htrim

/-- The digits of a number, with underscores among them, are no blanks. -/
theorem no_blank_of_toDigits (hw : w.filter (· != '_') = Nat.toDigits 10 n) :
    ∀ c ∈ w, isBlank c = false := by
  intro c hc
  by_cases hunder : c = '_'
  · rw [hunder]
    decide
  · have hmem : c ∈ Nat.toDigits 10 n := by
      rw [← hw, List.mem_filter]
      exact ⟨hc, by simpa using hunder⟩
    exact isBlank_of_isDigit (Nat.isDigit_of_mem_toDigits (by decide) (by decide) hmem)

/-- **The digits of a number read as the number**, with underscores anywhere among them and blanks
around them. -/
theorem readTapeSize?_of_toDigits (hpos : 1 ≤ n) (hmax : n ≤ Numeral.maxIndex)
    (hbefore : ∀ c ∈ before, isBlank c) (hafter : ∀ c ∈ after, isBlank c)
    (hw : w.filter (· != '_') = Nat.toDigits 10 n) :
    readTapeSize? (before ++ w ++ after) = some n := by
  rw [readTapeSize?_eq_some_iff, trim_append_of_blank hbefore hafter,
    trim_of_no_blank (no_blank_of_toDigits hw), hw]
  refine ⟨⟨Nat.toDigits 10 n, .inl rfl, Nat.toDigits_ne_nil, ?_, ?_⟩, hpos, hmax⟩
  · exact fun c hc => Nat.isDigit_of_mem_toDigits (by decide) (by decide) hc
  · exact Nat.ofDigitChars_ten_toDigits

/-- **A line that gives a tape size assigns it**, without the blanks around it or the quotes. -/
theorem assigns_of_givesTapeSize {ls : List (List Char)} {indent gap left right v : List Char}
    (hls : InSection ls)
    (hline : line = indent ++ (tapeSizeKey ++ gap) ++ '=' :: (left ++ value ++ right))
    (hblank : ∀ c ∈ indent ++ gap ++ left ++ right, isBlank c) (hv : Unquoted (trim value) v) :
    isEntry (trim line) ∧ Assigns ls (trim line) tapeSizeKey v := by
  have hindent : ∀ c ∈ indent, isBlank c := fun c hc => hblank c (by simp [hc])
  have hgap : ∀ c ∈ gap, isBlank c := fun c hc => hblank c (by simp [hc])
  have hleft : ∀ c ∈ left, isBlank c := fun c hc => hblank c (by simp [hc])
  have hright : ∀ c ∈ right, isBlank c := fun c hc => hblank c (by simp [hc])
  have hkey : tapeSizeKey = 't' :: "ape_size".toList := by decide
  have htrim : trim line = tapeSizeKey ++ gap ++ '=' :: trimRight (left ++ value ++ right) := by
    rw [hline, trim_append_cons (by decide), trimLeft_append_of_blank hindent, hkey]
    rfl
  have hhead : (trim line).head? = some 't' := by
    rw [htrim, hkey]
    rfl
  have hnotEquals : '=' ∉ tapeSizeKey ++ gap := by
    intro hmem
    rcases List.mem_append.1 hmem with hmem | hmem
    · exact absurd hmem (by decide)
    · exact absurd (hgap '=' hmem) (by decide)
  have hkeySide : tapeSizeKey = trim (tapeSizeKey ++ gap) := by
    have hgone : trim ([] ++ tapeSizeKey ++ gap) = trim tapeSizeKey :=
      trim_append_of_blank (List.forall_mem_nil _) hgap
    exact hgone.symm
  have hvalueSide : trim (trimRight (left ++ value ++ right)) = trim value := by
    rw [trim_trimRight, trim_append_of_blank hleft hright]
  constructor
  · refine decide_eq_true ⟨fun hnil => ?_, fun hcomment => ?_⟩
    · rw [hnil] at hhead
      cases hhead
    · rw [hhead] at hcomment
      exact absurd hcomment (by decide)
  · refine ⟨hls, fun hheader => ?_, _, _, htrim, hnotEquals, hkeySide, hvalueSide ▸ hv⟩
    exact absurd (hhead.symm.trans hheader.1) (by decide)

/-- The digits of a number are the tape size of a settings file in which a line gives them, and no
line further down gives another. -/
theorem tapeSize_of_givesTapeSize (hpos : 1 ≤ n) (hmax : n ≤ Numeral.maxIndex)
    (hbefore : ∀ c ∈ before, isBlank c) (hafter : ∀ c ∈ after, isBlank c)
    (hw : w.filter (· != '_') = Nat.toDigits 10 n) (h : IsLine above line below)
    (habove : InSection (entries above)) (hline : GivesTapeSize line (before ++ w ++ after))
    (hlast : ¬AssignedIn (entries above) (entries below) tapeSizeKey) :
    (ofText (above ++ line ++ below)).tapeSize = some n := by
  obtain ⟨indent, gap, left, value, right, hline, hvalue, hblank⟩ := hline
  have hnone := no_blank_of_toDigits hw
  have htrimmed : trim (before ++ w ++ after) = w := by
    rw [trim_append_of_blank hbefore hafter, trim_of_no_blank hnone]
  have hread (v : List Char) (hv : Unquoted (trim value) v) (hn : readTapeSize? v = some n) :
      (ofText (above ++ line ++ below)).tapeSize = some n := by
    obtain ⟨hentry, hassigns⟩ := assigns_of_givesTapeSize habove hline hblank hv
    rw [tapeSize_ofText, value?_of_not_assignedIn h (entries_line h hentry) hassigns (.inl rfl)
      hlast, Option.bind_some, hn]
  rcases hvalue with rfl | rfl
  · refine hread w ?_ ?_
    · rw [htrimmed]
      refine .inr ⟨rfl, fun ⟨_, hquote, _⟩ => ?_⟩
      have hmem := List.mem_of_mem_head? hquote
      have hdigits : '"' ∈ Nat.toDigits 10 n := by
        rw [← hw, List.mem_filter]
        exact ⟨hmem, by decide⟩
      exact absurd (Nat.isDigit_of_mem_toDigits (by decide) (by decide) hdigits) (by decide)
    · have hplain := readTapeSize?_of_toDigits hpos hmax (List.forall_mem_nil _)
        (List.forall_mem_nil _) hw
      rwa [List.nil_append, List.append_nil] at hplain
  · refine hread (before ++ w ++ after) ?_ (readTapeSize?_of_toDigits hpos hmax hbefore hafter hw)
    rw [trim_quoted]
    exact .inl rfl

/-- **The tape size that a text gives.** The texts that read as a tape size are those that denote
it in decimal digits, when the blanks around them and then the underscores are taken away: digits
that are too many for an index, or that come to zero, read as none. So the digits of a number, with
underscores anywhere among them and blanks around them, read as the number. They also give it as
the tape size of a settings file, in quotes or not, on a line in the section that counts if no line
further down assigns the tape size again. -/
theorem tape_size_format :
    (∀ s n, readTapeSize? s = some n ↔
      Numeral.Denotes ((trim s).filter (· != '_')) n ∧ 1 ≤ n ∧ n ≤ 2 ^ 64 - 1) ∧
    (∀ n before w after, 1 ≤ n → n ≤ 2 ^ 64 - 1 → (∀ c ∈ before, isBlank c) →
      (∀ c ∈ after, isBlank c) → w.filter (· != '_') = Nat.toDigits 10 n →
      readTapeSize? (before ++ w ++ after) = some n ∧
      ∀ above line below, IsLine above line below → InSection (entries above) →
        GivesTapeSize line (before ++ w ++ after) →
        ¬AssignedIn (entries above) (entries below) tapeSizeKey →
        (ofText (above ++ line ++ below)).tapeSize = some n) := by
  refine ⟨fun s n => readTapeSize?_eq_some_iff, ?_⟩
  intro n before w after hpos hmax hbefore hafter hw
  refine ⟨readTapeSize?_of_toDigits hpos hmax hbefore hafter hw, ?_⟩
  intro above line below h habove hline hlast
  exact tapeSize_of_givesTapeSize hpos hmax hbefore hafter hw h habove hline hlast

/-- The largest index, in quotes, on a line with a key of its own below it. -/
theorem tape_size_format_of_largest :
    let w := "18_446_744_073_709_551_615_".toList
    let above := "[interpreter]\r\n".toList
    let line := "\ttape_size =\u2003\" 18_446_744_073_709_551_615_\u2003\"\r\n".toList
    let below := "quiet = on".toList
    (1 ≤ 2 ^ 64 - 1 ∧ (∀ c ∈ [' '], isBlank c) ∧ (∀ c ∈ ['\u2003'], isBlank c) ∧
      w.filter (· != '_') = Nat.toDigits 10 (2 ^ 64 - 1) ∧ IsLine above line below ∧
      InSection (entries above) ∧ GivesTapeSize line ([' '] ++ w ++ ['\u2003']) ∧
      ¬AssignedIn (entries above) (entries below) tapeSizeKey) ∧
    readTapeSize? ([' '] ++ w ++ ['\u2003']) = some (2 ^ 64 - 1) ∧
    (ofText (above ++ line ++ below)).tapeSize = some (2 ^ 64 - 1) := by
  intro w above line below
  have hpos : 1 ≤ 2 ^ 64 - 1 := by decide
  have hbefore : ∀ c ∈ [' '], isBlank c := List.all_eq_true.1 (by decide)
  have hafter : ∀ c ∈ ['\u2003'], isBlank c := List.all_eq_true.1 (by decide)
  have hw : w.filter (· != '_') = Nat.toDigits 10 (2 ^ 64 - 1) := by decide +kernel
  have hline : IsLine above line below :=
    ⟨.inr (by decide), line.dropLast, by decide, .inl (by decide)⟩
  have habove : InSection (entries above) := ⟨[], [], by decide, List.forall_mem_nil _⟩
  have hgives : GivesTapeSize line ([' '] ++ w ++ ['\u2003']) :=
    ⟨['\t'], [' '], ['\u2003'], _, ['\r', '\n'], by decide, .inr rfl,
      List.all_eq_true.1 (by decide)⟩
  have hlast : ¬AssignedIn (entries above) (entries below) tapeSizeKey := by
    have hbelow : entries below = [] ++ [below] := by decide
    rw [hbelow, assignedIn_concat]
    rintro (hnone | ⟨v, hassigns⟩)
    · exact not_assignedIn_nil hnone
    · have hne : quietKey ≠ tapeSizeKey := by decide
      have hsides : assignment? below = some (quietKey, ['o', 'n']) := by decide
      obtain ⟨-, -, hkey⟩ := assigns_iff.1 hassigns
      rw [hsides] at hkey
      exact hne (congrArg Prod.fst (Option.some.inj hkey))
  obtain ⟨hread, hfile⟩ := tape_size_format.2 (2 ^ 64 - 1) [' '] w ['\u2003'] hpos (Nat.le_refl _)
    hbefore hafter hw
  exact ⟨⟨hpos, hbefore, hafter, hw, hline, habove, hgives, hlast⟩, hread,
    hfile above line below hline habove hgives hlast⟩

/-- One more is too large, a blank behind an underscore is in the way, zeros in front are not. -/
example : readTapeSize? "18446744073709551616".toList = none ∧
    readTapeSize? "_ 5".toList = none ∧ readTapeSize? "+000_5 ".toList = some 5 := by
  decide +kernel

end FileSettings

end Brainfuck
