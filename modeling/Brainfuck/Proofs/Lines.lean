import Mathlib.Data.List.DropRight
import Brainfuck.Text.Blank
import Brainfuck.Text.Split

/-!
# Lines

A line of a text ends at a line feed. A carriage return right before the line feed belongs to the
end of the line; any other is part of it. All of these are blanks, so whoever leaves out the blanks
at the ends of lines, and the lines that are empty then, may cut the text at its line feeds alone.

* `trim_append_of_blank`, `trim_append_cons`: what `trim` takes away.
* `lines`: the lines of a text.
* `filter_map_trim_lines`: the lines, trimmed, are the pieces between line feeds, trimmed.
-/

namespace Brainfuck

variable {s t before after : List Char} {c : Char}

/-! ### Blanks at the ends -/

theorem trimRight_cons (c : Char) (s : List Char) :
    trimRight (c :: s) = if trimRight s = [] ∧ isBlank c then [] else c :: trimRight s := by
  unfold trimRight
  rw [List.reverse_cons, List.dropWhile_append]
  by_cases hs : s.reverse.dropWhile isBlank = []
  · cases hc : isBlank c <;> simp [hs, hc]
  · simp [hs]

/-- Blanks may be left out at either end first. -/
theorem trim_eq_trimLeft_trimRight (s : List Char) : trim s = trimLeft (trimRight s) := by
  unfold trim
  induction s with
  | nil => rfl
  | cons c s ih =>
    rw [trimRight_cons]
    cases hc : isBlank c with
    | true =>
      have hleft : trimLeft (c :: s) = trimLeft s := List.dropWhile_cons_of_pos hc
      rw [hleft, ih]
      by_cases hs : trimRight s = []
      · rw [if_pos ⟨hs, rfl⟩, hs]
      · rw [if_neg fun h => hs h.1]
        exact (List.dropWhile_cons_of_pos hc).symm
    | false =>
      have hblank : ¬isBlank c = true := by rw [hc]; exact Bool.false_ne_true
      have hleft : trimLeft (c :: s) = c :: s := List.dropWhile_cons_of_neg hblank
      rw [hleft, trimRight_cons, hc, if_neg fun h => Bool.false_ne_true h.2]
      exact (List.dropWhile_cons_of_neg hblank).symm

theorem trimLeft_append_of_blank (h : ∀ c ∈ before, isBlank c) :
    trimLeft (before ++ s) = trimLeft s :=
  List.dropWhile_append_of_pos h

theorem trimRight_append_of_blank (h : ∀ c ∈ after, isBlank c) :
    trimRight (s ++ after) = trimRight s := by
  unfold trimRight
  rw [List.reverse_append, List.dropWhile_append_of_pos fun c hc => h c (List.mem_reverse.1 hc)]

/-- Blanks around a text do not count. -/
theorem trim_append_of_blank (hbefore : ∀ c ∈ before, isBlank c) (hafter : ∀ c ∈ after, isBlank c) :
    trim (before ++ s ++ after) = trim s := by
  rw [trim_eq_trimLeft_trimRight, trimRight_append_of_blank hafter, ← trim_eq_trimLeft_trimRight,
    trim, trimLeft_append_of_blank hbefore, trim]

theorem trimRight_append_cons (h : isBlank c = false) (s t : List Char) :
    trimRight (s ++ c :: t) = s ++ c :: trimRight t := by
  induction s with
  | nil => rw [List.nil_append, trimRight_cons, h, if_neg (by simp), List.nil_append]
  | cons d s ih => rw [List.cons_append, trimRight_cons, ih, if_neg (by simp), List.cons_append]

/-- On either side of a character that is no blank, the blanks at the other end do not count. -/
theorem trim_append_cons (h : isBlank c = false) (s t : List Char) :
    trim (s ++ c :: t) = trimLeft s ++ c :: trimRight t := by
  rw [trim_eq_trimLeft_trimRight, trimRight_append_cons h]
  induction s with
  | nil => exact List.dropWhile_cons_of_neg (by simp [h])
  | cons d s ih =>
    cases hd : isBlank d with
    | true =>
      have hleft (u : List Char) : trimLeft (d :: u) = trimLeft u := List.dropWhile_cons_of_pos hd
      rw [List.cons_append, hleft, hleft, ih]
    | false =>
      have hleft (u : List Char) : trimLeft (d :: u) = d :: u :=
        List.dropWhile_cons_of_neg (by simp [hd])
      rw [List.cons_append, hleft, hleft, List.cons_append]

theorem trim_of_no_blank (h : ∀ c ∈ s, isBlank c = false) : trim s = s := by
  have hleft : trimLeft s = s := by
    refine List.dropWhile_eq_self_iff.2 fun hlength => ?_
    simp [h _ (List.getElem_mem hlength)]
  have hright : trimRight s = s := by
    refine List.rdropWhile_eq_self_iff.2 fun hne => ?_
    simp [h _ (List.getLast_mem hne)]
  rw [trim, hleft, hright]

theorem trim_trimRight (s : List Char) : trim (trimRight s) = trim s := by
  have hidem : trimRight (trimRight s) = trimRight s := List.rdropWhile_idempotent isBlank s
  rw [trim_eq_trimLeft_trimRight, hidem, ← trim_eq_trimLeft_trimRight]

/-! ### Ends of lines -/

/-- The lines of a text. What is behind the last end is a line too, unless nothing is. -/
def lines : List Char → List (List Char)
  | [] => []
  | '\r' :: '\n' :: rest => [] :: lines rest
  | '\n' :: rest => [] :: lines rest
  | c :: rest => onFirst c (lines rest)

/-- Puts a character in front of the first of some pieces without blanks behind them. -/
def onFirstTrimmed (c : Char) (pieces : List (List Char)) : List (List Char) :=
  match pieces with
  | [] => [trimRight [c]]
  | p :: ps => (if p = [] ∧ isBlank c then [] else c :: p) :: ps

theorem map_trimRight_onFirst (c : Char) (pieces : List (List Char)) :
    (onFirst c pieces).map trimRight = onFirstTrimmed c (pieces.map trimRight) := by
  cases pieces with
  | nil => rfl
  | cons p ps =>
    rw [onFirst, List.map_cons, trimRight_cons, List.map_cons]
    rfl

/-- But for the blanks at their ends, the pieces between line feeds are the lines. There may be an
empty piece more: the one behind the last line feed. -/
theorem map_trimRight_splitOn (text : List Char) :
    (splitOn '\n' text).map trimRight = (lines text).map trimRight ∨
      (splitOn '\n' text).map trimRight = (lines text).map trimRight ++ [[]] := by
  have hend {pieces ls : List (List Char)}
      (h : pieces.map trimRight = ls.map trimRight ∨
        pieces.map trimRight = ls.map trimRight ++ [[]]) :
      ([] :: pieces).map trimRight = ([] :: ls).map trimRight ∨
        ([] :: pieces).map trimRight = ([] :: ls).map trimRight ++ [[]] := by
    rcases h with h | h
    · exact .inl (by rw [List.map_cons, h, List.map_cons])
    · exact .inr (by rw [List.map_cons, h, List.map_cons, List.cons_append])
  fun_induction lines text with
  | case1 => exact .inr rfl
  | case2 rest ih =>
    have hblank : trimRight ['\r'] = [] := by decide
    have hsplit : (splitOn '\n' ('\r' :: '\n' :: rest)).map trimRight =
        ([] :: splitOn '\n' rest).map trimRight := by
      rw [splitOn_cons (by decide), splitOn_separator, onFirst, List.map_cons, hblank]
      rfl
    rw [hsplit]
    exact hend ih
  | case3 rest ih =>
    rw [splitOn_separator]
    exact hend ih
  | case4 c rest hreturn hfeed ih =>
    rw [splitOn_cons fun h => hfeed h, map_trimRight_onFirst, map_trimRight_onFirst]
    rcases ih with ih | ih
    · exact .inl (by rw [ih])
    · rw [ih]
      cases lines rest with
      | nil => exact .inl (congrArg (fun p => [p]) (trimRight_cons c []).symm)
      | cons l ls => exact .inr rfl

/-- **Without empty lines, the lines of a text are the pieces between its line feeds**, if blanks
at their ends do not count. -/
theorem filter_map_trim_lines {keep : List Char → Bool} (h : keep [] = false) (text : List Char) :
    ((lines text).map trim).filter keep = ((splitOn '\n' text).map trim).filter keep := by
  have htrim (ls : List (List Char)) : ls.map trim = (ls.map trimRight).map trimLeft := by
    rw [List.map_map]
    exact List.map_congr_left fun s _ => trim_eq_trimLeft_trimRight s
  have hnone : ([[]].map trimLeft).filter keep = [] := by
    have hempty : [[]].map trimLeft = [[]] := rfl
    rw [hempty, List.filter_cons, h]
    rfl
  rw [htrim, htrim]
  rcases map_trimRight_splitOn text with hsplit | hsplit
  · rw [hsplit]
  · rw [hsplit, List.map_append, List.filter_append, hnone, List.append_nil]

end Brainfuck
