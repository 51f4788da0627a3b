import Mathlib.Algebra.Group.Nat.Defs
import Mathlib.Data.List.Forall2
import Brainfuck.Settings.Value

/-!
# What values mean

The texts that read as a tape size, and those that read as a switch, told without a reader of them.
A number is written in decimal digits; a switch is one of eight words, in letters of either case.

* `Numeral.Denotes`: the texts that denote a number.
* `Numeral.readDigits_eq_ok_iff`, `Numeral.read_eq_ok_iff`: what reading a text as an index gives.
* `readTapeSize?_eq_some_iff`: the format of a tape size.
* `Switch.Denotes`: the words that turn a switch on or off.
* `readSwitch?_eq_some_iff`: the words that read as a switch.
-/

namespace Brainfuck

namespace Numeral

variable {s : List Char} {c : Char} {value n : Nat}

/-- Digits, behind one plus sign or none, denote their value. -/
def Denotes (s : List Char) (n : Nat) : Prop :=
  ∃ digits, (s = digits ∨ s = '+' :: digits) ∧ digits ≠ [] ∧ (∀ c ∈ digits, c.isDigit) ∧
    Nat.ofDigitChars 10 digits 0 = n

theorem le_ofDigitChars (s : List Char) (value : Nat) : value ≤ Nat.ofDigitChars 10 s value := by
  induction s generalizing value with
  | nil => exact Nat.le_refl value
  | cons c s ih =>
    rw [Nat.ofDigitChars_cons]
    have hnext := ih (10 * value + (c.toNat - '0'.toNat))
    omega

theorem addDigit_of_digit (h : c.isDigit) :
    addDigit value c =
      if 10 * value + (c.toNat - '0'.toNat) ≤ maxIndex then
        .ok (10 * value + (c.toNat - '0'.toNat))
      else .error .tooLarge := by
  have hdigit : digit? c = some (c.toNat - '0'.toNat) := if_pos h
  rw [addDigit, hdigit, Nat.mul_comm 10 value]

theorem addDigit_of_not_digit (h : ¬c.isDigit) : addDigit value c = .error .invalidDigit := by
  have hdigit : digit? c = none := if_neg h
  rw [addDigit, hdigit]

/-- **Reading digits gives their value**, unless it is too large. The value only grows, so it is
never too large on the way if it is not at the end. -/
theorem readDigits_eq_ok_iff (h : value ≤ maxIndex) :
    readDigits value s = .ok n ↔
      (∀ c ∈ s, c.isDigit) ∧ Nat.ofDigitChars 10 s value = n ∧ n ≤ maxIndex := by
  induction s generalizing value with
  | nil =>
    constructor
    · intro hread
      cases hread
      exact ⟨List.forall_mem_nil _, rfl, h⟩
    · rintro ⟨-, rfl, -⟩
      rfl
  | cons c s ih =>
    have hcons : readDigits value (c :: s) = addDigit value c >>= fun v => readDigits v s :=
      List.foldlM_cons
    rw [hcons, List.forall_mem_cons, Nat.ofDigitChars_cons]
    by_cases hdigit : c.isDigit
    · rw [addDigit_of_digit hdigit]
      by_cases hfits : 10 * value + (c.toNat - '0'.toNat) ≤ maxIndex
      · rw [if_pos hfits]
        refine (ih hfits).trans ?_
        simp [hdigit]
      · rw [if_neg hfits]
        constructor
        · intro hread
          cases hread
        · rintro ⟨-, rfl, hmax⟩
          have hgrows := le_ofDigitChars s (10 * value + (c.toNat - '0'.toNat))
          omega
    · rw [addDigit_of_not_digit hdigit]
      constructor
      · intro hread
        cases hread
      · rintro ⟨⟨hc, -⟩, -, -⟩
        exact absurd hc hdigit

theorem denotes_of_ne_plus (h : s.head? ≠ some '+') :
    Denotes s n ↔ s ≠ [] ∧ (∀ c ∈ s, c.isDigit) ∧ Nat.ofDigitChars 10 s 0 = n := by
  constructor
  · rintro ⟨digits, rfl | rfl, hdigits⟩
    · exact hdigits
    · exact absurd rfl h
  · intro hdigits
    exact ⟨s, .inl rfl, hdigits⟩

theorem denotes_plus :
    Denotes ('+' :: s) n ↔ s ≠ [] ∧ (∀ c ∈ s, c.isDigit) ∧ Nat.ofDigitChars 10 s 0 = n := by
  constructor
  · rintro ⟨digits, rfl | heq, hdigits⟩
    · exact absurd (hdigits.2.1 '+' List.mem_cons_self) (by decide)
    · cases heq
      exact hdigits
  · intro hdigits
    exact ⟨s, .inr rfl, hdigits⟩

/-- **The texts that read as an index** are those that denote one. -/
theorem read_eq_ok_iff : read s = .ok n ↔ Denotes s n ∧ n ≤ maxIndex := by
  have hzero : 0 ≤ maxIndex := Nat.zero_le maxIndex
  unfold read
  split
  · have hempty : ¬Denotes [] n := fun h => ((denotes_of_ne_plus (by decide)).1 h).1 rfl
    simp [hempty]
  · have hlone : ¬Denotes ['+'] n := fun h => (denotes_plus.1 h).1 rfl
    simp [hlone]
  · rename_i digits hdigits
    rw [readDigits_eq_ok_iff hzero, denotes_plus]
    have hne : digits ≠ [] := fun h => hdigits (by rw [h])
    simp [hne, and_assoc]
  · rename_i hne _ hplus
    have hhead : s.head? ≠ some '+' := by
      intro h
      obtain ⟨digits, rfl⟩ := List.head?_eq_some_iff.1 h
      exact hplus digits rfl
    rw [readDigits_eq_ok_iff hzero, denotes_of_ne_plus hhead]
    have hnil : s ≠ [] := fun h => hne h
    simp [hnil, and_assoc]

end Numeral

/-- **The format of a tape size.** -/
theorem readTapeSize?_eq_some_iff {s : List Char} {n : Nat} :
    readTapeSize? s = some n ↔
      Numeral.Denotes ((trim s).filter (· != '_')) n ∧ 1 ≤ n ∧ n ≤ Numeral.maxIndex := by
  have hread : readTapeSize? s = some n ↔
      Numeral.read ((trim s).filter (· != '_')) = .ok n ∧ 0 < n := by
    unfold readTapeSize?
    cases Numeral.read ((trim s).filter (· != '_')) with
    | error e => simp
    | ok m =>
      by_cases hpos : 0 < m
      · simp only [if_pos hpos, Option.some.injEq, Except.ok.injEq]
        exact ⟨fun h => ⟨h, h ▸ hpos⟩, And.left⟩
      · simp only [if_neg hpos, reduceCtorEq, Except.ok.injEq, false_iff]
        rintro ⟨rfl, h⟩
        exact hpos h
  rw [hread, Numeral.read_eq_ok_iff, and_assoc, and_comm (a := n ≤ _)]
  rfl

namespace Switch

/-- The letter is a small one, or any other character, or the capital of the small letter. -/
def SameLetter (c small : Char) : Prop :=
  c = small ∨ ('a' ≤ small ∧ small ≤ 'z' ∧ c.toNat + 32 = small.toNat)

/-- The text is the word, with letters of either case. -/
def Spells (s : List Char) (word : String) : Prop := List.Forall₂ SameLetter s word.toList

/-- The words that turn a switch on, and those that turn it off. -/
def Denotes (s : List Char) : Bool → Prop
  | true => ∃ word ∈ ["1", "true", "yes", "on"], Spells s word
  | false => ∃ word ∈ ["0", "false", "no", "off"], Spells s word

/-- Capitals stand 32 below their small letters. -/
theorem toNat_toLower (c : Char) :
    c.toLower.toNat = if 65 ≤ c.toNat ∧ c.toNat ≤ 90 then c.toNat + 32 else c.toNat := by
  have hcapital : (c.val ≥ 'A'.val ∧ c.val ≤ 'Z'.val) ↔ 65 ≤ c.toNat ∧ c.toNat ≤ 90 := by
    simp only [ge_iff_le, UInt32.le_iff_toNat_le]
    exact Iff.rfl
  unfold Char.toLower
  split
  · rename_i h
    rw [if_pos (hcapital.1 h)]
    have hle : c.val.toNat ≤ 90 := (hcapital.1 h).2
    have hdistance : ('a'.val - 'A'.val).toNat = 32 := by decide
    change (c.val + ('a'.val - 'A'.val)).toNat = c.val.toNat + 32
    rw [UInt32.toNat_add]
    omega
  · rename_i h
    rw [if_neg (mt hcapital.2 h)]

theorem toLower_eq_iff {c small : Char} (h : small.toLower = small) :
    c.toLower = small ↔ SameLetter c small := by
  have hsmall := toNat_toLower small
  have hrange : ('a' ≤ small ∧ small ≤ 'z') ↔ 97 ≤ small.toNat ∧ small.toNat ≤ 122 := by
    simp only [Char.le_def, UInt32.le_iff_toNat_le]
    exact Iff.rfl
  unfold SameLetter
  rw [← and_assoc, hrange, ← Char.toNat_inj, ← Char.toNat_inj, toNat_toLower]
  rw [h] at hsmall
  split_ifs at hsmall ⊢ <;> omega

/-- A word of small letters is spelt by the texts that come to it in small letters. -/
theorem spells_iff {s : List Char} {word : String}
    (hword : word.toList.map Char.toLower = word.toList) :
    Spells s word ↔ s.map Char.toLower = word.toList := by
  unfold Spells
  generalize word.toList = w at hword ⊢
  induction w generalizing s with
  | nil => simp
  | cons small w ih =>
    obtain ⟨hsmall, hw⟩ := List.cons.inj hword
    cases s with
    | nil => simp
    | cons c s => simp [ih hw, toLower_eq_iff hsmall]

/-- The words of a list, as the reader looks for them. -/
theorem exists_spells_iff {s : List Char} (words : List String)
    (hwords : ∀ word ∈ words, word.toList.map Char.toLower = word.toList) :
    (∃ word ∈ words, Spells s word) ↔ s.map Char.toLower ∈ words.map String.toList := by
  rw [List.mem_map]
  constructor
  · rintro ⟨word, hmem, hspells⟩
    exact ⟨word, hmem, ((spells_iff (hwords word hmem)).1 hspells).symm⟩
  · rintro ⟨word, hmem, hsame⟩
    exact ⟨word, hmem, (spells_iff (hwords word hmem)).2 hsame.symm⟩

theorem denotes_true_iff {s : List Char} : Denotes s true ↔ s.map Char.toLower ∈ onWords :=
  exists_spells_iff ["1", "true", "yes", "on"] (by decide)

theorem denotes_false_iff {s : List Char} : Denotes s false ↔ s.map Char.toLower ∈ offWords :=
  exists_spells_iff ["0", "false", "no", "off"] (by decide)

end Switch

/-- **The words that read as a switch.** -/
theorem readSwitch?_eq_some_iff {s : List Char} {b : Bool} :
    readSwitch? s = some b ↔ Switch.Denotes (trim s) b := by
  have hdisjoint : ∀ word ∈ onWords, word ∉ offWords := by decide
  unfold readSwitch?
  dsimp only
  by_cases hon : (trim s).map Char.toLower ∈ onWords
  · rw [if_pos hon]
    cases b with
    | true => simp [Switch.denotes_true_iff, hon]
    | false => simp [Switch.denotes_false_iff, hdisjoint _ hon]
  · rw [if_neg hon]
    cases b with
    | true => simp [Switch.denotes_true_iff, hon]
    | false => simp [Switch.denotes_false_iff]

end Brainfuck
