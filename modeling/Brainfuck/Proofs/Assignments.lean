import Brainfuck.Proofs.Lines
import Brainfuck.Settings.File

/-!
# Assignments

What a settings file means, without a reader that goes through it: the value of a key is the one
of the last line that assigns it, and a line assigns something only if the nearest header above it
is that of the section that counts.

* `FileSettings.entries`: the lines of a text that say something.
* `FileSettings.Assigns`: what a line below other lines assigns.
* `FileSettings.LastAssigned`: the value of a key that lines assign last.
* `FileSettings.Tracks.line`, `FileSettings.tracks_readLines`: a reader knows the section and the
  last value of each key, line by line and at the end of a text.
* `FileSettings.value?_readOn`: what a reader finds below the lines that it has read.
* `FileSettings.IsLine`, `FileSettings.readLines_of_assigns`: a line and the texts above and below
  it, and the reader of all three.
-/

namespace Brainfuck

namespace FileSettings

variable {s left right key v w : List Char} {ls above below : List (List Char)} {r : Reader}

/-! ### The meaning of lines -/

/-- Does a line say something? It does unless it is empty or a comment. -/
def isEntry (s : List Char) : Bool := s ≠ [] ∧ s.head? ≠ some '#'

/-- The lines of a text that say something, without the blanks at their ends. -/
def entries (text : List Char) : List (List Char) := ((lines text).map trim).filter isEntry

/-- A header starts with an open bracket and ends with a close bracket. -/
def IsHeader (s : List Char) : Prop := s.head? = some '[' ∧ s.getLast? = some ']'

instance (s : List Char) : Decidable (IsHeader s) := inferInstanceAs (Decidable (_ ∧ _))

/-- The header of the section that counts. -/
def sectionHeader : List Char := "[interpreter]".toList

/-- The nearest header above is that of the section that counts. -/
def InSection (above : List (List Char)) : Prop :=
  ∃ before since, above = before ++ sectionHeader :: since ∧ ∀ s ∈ since, ¬IsHeader s

/-- The value is the text without one pair of double quotes around it, if there is one. -/
def Unquoted (s value : List Char) : Prop :=
  s = '"' :: (value ++ ['"']) ∨
    (s = value ∧ ¬(2 ≤ s.length ∧ s.head? = some '"' ∧ s.getLast? = some '"'))

/-- A line below other lines assigns a value to a key: it is in the section that counts, is no
header, and has the key and the value on either side of its first equals sign. -/
structure Assigns (above : List (List Char)) (s key value : List Char) : Prop where
  inSection : InSection above
  not_header : ¬IsHeader s
  sides : ∃ left right, s = left ++ '=' :: right ∧ '=' ∉ left ∧ key = trim left ∧
    Unquoted (trim right) value

/-- One of the lines below other lines assigns the key. -/
def AssignedIn (above below : List (List Char)) (key : List Char) : Prop :=
  ∃ between s rest value, below = between ++ s :: rest ∧ Assigns (above ++ between) s key value

/-- The last line to assign the key assigns it the value. -/
def LastAssigned (ls : List (List Char)) (key value : List Char) : Prop :=
  ∃ above s below, ls = above ++ s :: below ∧ Assigns above s key value ∧
    ¬AssignedIn (above ++ [s]) below key

/-! ### Parts of a line -/

theorem getLast?_cons_concat (a b : Char) (t : List Char) :
    (a :: (t ++ [b])).getLast? = some b := by
  rw [← List.cons_append, List.getLast?_concat]

/-- A text that starts with one character and ends with another one behind it. -/
theorem eq_cons_concat_iff {a b : Char} :
    (2 ≤ s.length ∧ s.head? = some a ∧ s.getLast? = some b) ↔ ∃ t, s = a :: (t ++ [b]) := by
  constructor
  · rintro ⟨hlength, hhead, hlast⟩
    cases s with
    | nil => cases hhead
    | cons c s =>
      cases hhead
      rcases List.eq_nil_or_concat s with rfl | ⟨t, d, rfl⟩
      · exact absurd hlength (by simp)
      · rw [List.concat_eq_append, getLast?_cons_concat] at hlast
        cases hlast
        exact ⟨t, by rw [List.concat_eq_append]⟩
  · rintro ⟨t, rfl⟩
    exact ⟨by simp, rfl, getLast?_cons_concat a b t⟩

theorem isHeader_iff : IsHeader s ↔ ∃ name, s = '[' :: (name ++ [']']) := by
  rw [← eq_cons_concat_iff, IsHeader]
  constructor
  · rintro ⟨hhead, hlast⟩
    refine ⟨?_, hhead, hlast⟩
    match s, hhead, hlast with
    | [c], hhead, hlast =>
      cases hhead
      exact absurd hlast (by decide)
    | _ :: _ :: _, _, _ => simp
  · rintro ⟨-, hhead, hlast⟩
    exact ⟨hhead, hlast⟩

/-- What is between two characters at the ends of a text. -/
theorem dropLast_eq_iff {a b : Char} :
    (∃ rest, s = a :: rest ∧ rest.getLast? = some b ∧ rest.dropLast = v) ↔
      s = a :: (v ++ [b]) := by
  constructor
  · rintro ⟨rest, rfl, hlast, rfl⟩
    rw [List.dropLast_append_getLast? b hlast]
  · rintro rfl
    exact ⟨v ++ [b], rfl, List.getLast?_concat, List.dropLast_concat⟩

theorem headerName?_eq_some_iff : headerName? s = some v ↔ s = '[' :: (v ++ [']']) := by
  rw [← dropLast_eq_iff]
  unfold headerName?
  split
  · rename_i rest
    split
    · rename_i hlast
      simp [hlast]
    · rename_i hlast
      simp [hlast]
  · rename_i hne
    simp only [reduceCtorEq, false_iff, not_exists, not_and]
    intro rest hs
    exact absurd hs (hne rest)

theorem unquote_eq_iff : unquote s = v ↔ Unquoted s v := by
  have hends : (2 ≤ s.length ∧ s.head? = some '"' ∧ s.getLast? = some '"') ↔
      ∃ t, s = '"' :: (t ++ ['"']) := eq_cons_concat_iff
  unfold Unquoted
  rw [hends]
  by_cases hquoted : ∃ t, s = '"' :: (t ++ ['"'])
  · obtain ⟨t, rfl⟩ := hquoted
    have ht : unquote ('"' :: (t ++ ['"'])) = t := by simp [unquote]
    rw [ht]
    simp
  · have hs : unquote s = s := by
      unfold unquote
      split
      · rename_i rest
        refine if_neg fun hlast => hquoted ⟨rest.dropLast, ?_⟩
        rw [List.dropLast_append_getLast? _ hlast]
      · rfl
    have hne : s ≠ '"' :: (v ++ ['"']) := fun h => hquoted ⟨v, h⟩
    rw [hs]
    simp [hne, hquoted]

/-- The two sides of the first equals sign. -/
theorem assignment?_append_cons (h : '=' ∉ left) (right : List Char) :
    assignment? (left ++ '=' :: right) = some (trim left, unquote (trim right)) := by
  have hleft : ∀ c ∈ left, (c != '=') = true := by
    intro c hc
    have hne : c ≠ '=' := fun heq => h (heq ▸ hc)
    simp [hne]
  unfold assignment?
  rw [List.dropWhile_append_of_pos hleft, List.takeWhile_append_of_pos hleft,
    List.dropWhile_cons_of_neg (by simp), List.takeWhile_cons_of_neg (by simp), List.append_nil]

theorem assignment?_eq_none (h : '=' ∉ s) : assignment? s = none := by
  have hs : s.dropWhile (· != '=') = [] := by
    refine List.dropWhile_eq_nil_iff.2 fun c hc => ?_
    have hne : c ≠ '=' := fun heq => h (heq ▸ hc)
    simp [hne]
  rw [assignment?, hs]

theorem assignment?_eq_some_iff : assignment? s = some (key, v) ↔
    ∃ left right, s = left ++ '=' :: right ∧ '=' ∉ left ∧ key = trim left ∧
      Unquoted (trim right) v := by
  constructor
  · intro h
    have hmem : '=' ∈ s := by
      by_contra hnot
      rw [assignment?_eq_none hnot] at h
      cases h
    obtain ⟨left, right, rfl, hleft⟩ := List.eq_append_cons_of_mem hmem
    rw [assignment?_append_cons hleft] at h
    cases h
    exact ⟨left, right, rfl, hleft, rfl, unquote_eq_iff.1 rfl⟩
  · rintro ⟨left, right, rfl, hleft, rfl, hright⟩
    rw [assignment?_append_cons hleft, unquote_eq_iff.2 hright]

/-- **What a line that says something is**: a header, an assignment, or neither. -/
theorem ofTrimmed_cases (h : isEntry s) :
    (∃ name, s = '[' :: (name ++ [']']) ∧ Line.ofTrimmed s = .header name) ∨
      (∃ key value, ¬IsHeader s ∧ assignment? s = some (key, value) ∧
        Line.ofTrimmed s = .assignment key value) ∨
      (¬IsHeader s ∧ assignment? s = none ∧ Line.ofTrimmed s = .skipped) := by
  have hentry : ¬(s = [] ∨ s.head? = some '#') := by
    have hboth : s ≠ [] ∧ s.head? ≠ some '#' := of_decide_eq_true h
    exact not_or.2 hboth
  unfold Line.ofTrimmed
  rw [if_neg hentry]
  cases hname : headerName? s with
  | some name => exact .inl ⟨name, headerName?_eq_some_iff.1 hname, rfl⟩
  | none =>
    have hheader : ¬IsHeader s := by
      intro hs
      obtain ⟨name, hs⟩ := isHeader_iff.1 hs
      rw [headerName?_eq_some_iff.2 hs] at hname
      cases hname
    cases hsides : assignment? s with
    | some sides => exact .inr (.inl ⟨sides.1, sides.2, hheader, rfl, rfl⟩)
    | none => exact .inr (.inr ⟨hheader, rfl, rfl⟩)

/-! ### Lines below lines -/

theorem concat_eq_append_cons_iff {t : List Char} :
    ls ++ [s] = above ++ t :: below ↔
      (ls = above ∧ s = t ∧ below = []) ∨
        ∃ rest, below = rest ++ [s] ∧ ls = above ++ t :: rest := by
  rcases List.eq_nil_or_concat below with rfl | ⟨rest, u, rfl⟩
  · constructor
    · intro h
      obtain ⟨hls, hs⟩ := List.append_inj' h rfl
      exact .inl ⟨hls, (List.cons.inj hs).1, rfl⟩
    · rintro (⟨rfl, rfl, -⟩ | ⟨rest, h, -⟩)
      · rfl
      · exact absurd h.symm (List.concat_ne_nil s rest)
  · rw [List.concat_eq_append, ← List.cons_append, ← List.append_assoc]
    constructor
    · intro h
      obtain ⟨hls, hs⟩ := List.append_inj' h rfl
      exact .inr ⟨rest, by rw [hs], hls⟩
    · rintro (⟨-, -, h⟩ | ⟨rest', h, rfl⟩)
      · exact absurd h (List.concat_ne_nil u rest)
      · obtain ⟨rfl, hu⟩ := List.append_inj' h rfl
        rw [hu]

theorem not_inSection_nil : ¬InSection [] := by
  rintro ⟨before, since, h, -⟩
  exact absurd h.symm (List.append_ne_nil_of_right_ne_nil before (List.cons_ne_nil _ since))

theorem inSection_concat_of_header (h : IsHeader s) :
    InSection (ls ++ [s]) ↔ s = sectionHeader := by
  constructor
  · rintro ⟨before, since, hls, hsince⟩
    rcases concat_eq_append_cons_iff.1 hls with ⟨-, hs, -⟩ | ⟨rest, rfl, -⟩
    · exact hs
    · exact absurd h (hsince s (List.mem_append_right rest (List.mem_singleton_self s)))
  · rintro rfl
    exact ⟨ls, [], rfl, List.forall_mem_nil _⟩

theorem inSection_concat (h : ¬IsHeader s) : InSection (ls ++ [s]) ↔ InSection ls := by
  constructor
  · rintro ⟨before, since, hls, hsince⟩
    rcases concat_eq_append_cons_iff.1 hls with ⟨-, rfl, -⟩ | ⟨rest, rfl, rfl⟩
    · exact absurd (by decide) h
    · exact ⟨before, rest, rfl, fun t ht => hsince t (List.mem_append_left [s] ht)⟩
  · rintro ⟨before, since, rfl, hsince⟩
    refine ⟨before, since ++ [s], by simp, fun t ht => ?_⟩
    rcases List.mem_append.1 ht with ht | ht
    · exact hsince t ht
    · rw [List.mem_singleton.1 ht]
      exact h

theorem assigns_iff :
    Assigns above s key v ↔ InSection above ∧ ¬IsHeader s ∧ assignment? s = some (key, v) := by
  rw [assignment?_eq_some_iff]
  exact ⟨fun h => ⟨h.inSection, h.not_header, h.sides⟩, fun h => ⟨h.1, h.2.1, h.2.2⟩⟩

/-- A line assigns one value at most. -/
theorem Assigns.unique {key' : List Char} (h : Assigns above s key v)
    (h' : Assigns above s key' w) : key = key' ∧ v = w := by
  obtain ⟨-, -, hs⟩ := assigns_iff.1 h
  obtain ⟨-, -, hs'⟩ := assigns_iff.1 h'
  rw [hs] at hs'
  cases hs'
  exact ⟨rfl, rfl⟩

theorem not_assignedIn_nil : ¬AssignedIn above [] key := by
  rintro ⟨between, t, rest, w, h, -⟩
  exact absurd h.symm (List.append_ne_nil_of_right_ne_nil between (List.cons_ne_nil t rest))

theorem assignedIn_concat :
    AssignedIn above (below ++ [s]) key ↔
      AssignedIn above below key ∨ ∃ w, Assigns (above ++ below) s key w := by
  constructor
  · rintro ⟨between, t, rest, w, h, ht⟩
    rcases concat_eq_append_cons_iff.1 h with ⟨rfl, rfl, -⟩ | ⟨rest', -, rfl⟩
    · exact .inr ⟨w, ht⟩
    · exact .inl ⟨between, t, rest', w, rfl, ht⟩
  · rintro (⟨between, t, rest, w, rfl, ht⟩ | ⟨w, hs⟩)
    · exact ⟨between, t, rest ++ [s], w, by simp, ht⟩
    · exact ⟨below, s, [], w, rfl, hs⟩

theorem not_lastAssigned_nil : ¬LastAssigned [] key v := by
  rintro ⟨above, s, below, h, -⟩
  exact absurd h.symm (List.append_ne_nil_of_right_ne_nil above (List.cons_ne_nil s below))

/-- **The last assignment in lines with one more** is that of the new line, if it assigns the key,
and else the one before. -/
theorem lastAssigned_concat :
    LastAssigned (ls ++ [s]) key v ↔
      Assigns ls s key v ∨ ((∀ w, ¬Assigns ls s key w) ∧ LastAssigned ls key v) := by
  constructor
  · rintro ⟨above, t, below, h, ht, hbelow⟩
    rcases concat_eq_append_cons_iff.1 h with ⟨rfl, rfl, -⟩ | ⟨rest, rfl, rfl⟩
    · exact .inl ht
    · rw [assignedIn_concat, not_or, not_exists, List.append_assoc, List.singleton_append] at hbelow
      exact .inr ⟨hbelow.2, above, t, rest, rfl, ht, hbelow.1⟩
  · rintro (hs | ⟨hnone, above, t, below, rfl, ht, hbelow⟩)
    · exact ⟨ls, s, [], rfl, hs, not_assignedIn_nil⟩
    · refine ⟨above, t, below ++ [s], by simp, ht, ?_⟩
      rw [assignedIn_concat, not_or, not_exists, List.append_assoc, List.singleton_append]
      exact ⟨hbelow, hnone⟩

theorem lastAssigned_concat_of_not (h : ∀ w, ¬Assigns ls s key w) :
    LastAssigned (ls ++ [s]) key v ↔ LastAssigned ls key v := by
  rw [lastAssigned_concat]
  exact ⟨fun hor => hor.elim (fun hs => absurd hs (h v)) And.right, fun hlast => .inr ⟨h, hlast⟩⟩

/-! ### The reader -/

/-- The keys that count. -/
def IsKey (key : List Char) : Prop := key = tapeSizeKey ∨ key = quietKey

/-- The value that a reader has for a key. -/
def Reader.value? (r : Reader) (key : List Char) : Option (List Char) :=
  if key = tapeSizeKey then r.tapeSize else if key = quietKey then r.quiet else none

/-- A reader goes on with lines that are trimmed already. -/
def Reader.readOn (r : Reader) (ls : List (List Char)) : Reader :=
  ls.foldl (fun r s => r.line (.ofTrimmed s)) r

theorem readOn_concat (r : Reader) (ls : List (List Char)) (s : List Char) :
    r.readOn (ls ++ [s]) = (r.readOn ls).line (.ofTrimmed s) := by
  unfold Reader.readOn
  rw [List.foldl_append]
  rfl

theorem readOn_append (r : Reader) (ls rest : List (List Char)) :
    r.readOn (ls ++ rest) = (r.readOn ls).readOn rest := List.foldl_append

theorem readOn_filter (r : Reader) (ls : List (List Char)) :
    r.readOn (ls.filter isEntry) = r.readOn ls := by
  induction ls generalizing r with
  | nil => rfl
  | cons s ls ih =>
    cases hs : isEntry s with
    | true =>
      rw [List.filter_cons_of_pos hs]
      exact ih _
    | false =>
      have hskipped : s = [] ∨ s.head? = some '#' := by
        have hboth : ¬(s ≠ [] ∧ s.head? ≠ some '#') := of_decide_eq_false hs
        by_contra hneither
        exact hboth (not_or.1 hneither)
      have hline : Line.ofTrimmed s = .skipped := if_pos hskipped
      have hread : r.readOn (s :: ls) = (r.line (.ofTrimmed s)).readOn ls := rfl
      rw [List.filter_cons_of_neg (by simp [hs]), hread, hline, ih]
      rfl

/-- The entries of a text are all that its reader reads. -/
theorem readLines_eq (text : List Char) : readLines text = Reader.readOn {} (entries text) := by
  have hempty : isEntry [] = false := rfl
  unfold entries
  rw [filter_map_trim_lines hempty, readOn_filter, Reader.readOn, List.foldl_map]
  rfl

theorem value?_start (key : List Char) : Reader.value? {} key = none := by
  unfold Reader.value?
  split
  · rfl
  · split <;> rfl

theorem value?_assign (hkey : IsKey key) (r : Reader) (key' v : List Char) :
    (r.assign key' v).value? key = if key' = key then some v else r.value? key := by
  have hne : quietKey ≠ tapeSizeKey := by decide
  unfold Reader.assign Reader.value?
  rcases hkey with rfl | rfl
  · by_cases hsize : key' = tapeSizeKey
    · simp [hsize]
    · by_cases hquiet : key' = quietKey <;> simp [hsize, hquiet, hne]
  · by_cases hsize : key' = tapeSizeKey
    · simp [hsize, hne, hne.symm]
    · by_cases hquiet : key' = quietKey <;> simp [hsize, hquiet, hne]

theorem inSection_assign (r : Reader) (key v : List Char) :
    (r.assign key v).inSection = r.inSection := by
  unfold Reader.assign
  split
  · rfl
  · split <;> rfl

/-- One line more, and the reader still knows whether it is in the section that counts. -/
theorem inSection_line (hs : isEntry s) (hr : r.inSection = true ↔ InSection ls) :
    (r.line (.ofTrimmed s)).inSection = true ↔ InSection (ls ++ [s]) := by
  rcases ofTrimmed_cases hs with ⟨name, hname, hline⟩ | ⟨k, w, hheader, -, hline⟩ |
    ⟨hheader, -, hline⟩ <;> rw [hline]
  · have hsection : sectionHeader = '[' :: (sectionName ++ [']']) := rfl
    have hinside : (r.line (.header name)).inSection = true ↔ name = sectionName :=
      decide_eq_true_iff
    rw [inSection_concat_of_header (isHeader_iff.2 ⟨name, hname⟩), hname, hsection, hinside]
    simp
  · rw [inSection_concat hheader, ← hr]
    unfold Reader.line
    dsimp only
    split
    · rw [inSection_assign]
    · rfl
  · rw [inSection_concat hheader, ← hr]
    rfl

/-- **What one line more does to the value of a key**: the line assigns it, or leaves it. -/
theorem value?_line (hs : isEntry s) (hr : r.inSection = true ↔ InSection ls) (hkey : IsKey key) :
    (∃ w, Assigns ls s key w ∧ (r.line (.ofTrimmed s)).value? key = some w) ∨
      ((∀ w, ¬Assigns ls s key w) ∧ (r.line (.ofTrimmed s)).value? key = r.value? key) := by
  rcases ofTrimmed_cases hs with ⟨name, hname, hline⟩ | ⟨k, w, hheader, hsides, hline⟩ |
    ⟨-, hsides, hline⟩ <;> rw [hline]
  · refine .inr ⟨fun w hw => ?_, rfl⟩
    exact hw.not_header (isHeader_iff.2 ⟨name, hname⟩)
  · by_cases hin : r.inSection = true
    · have hassign : r.line (.assignment k w) = r.assign k w := if_pos hin
      rw [hassign, value?_assign hkey]
      by_cases hk : k = key
      · rw [if_pos hk]
        exact .inl ⟨w, assigns_iff.2 ⟨hr.1 hin, hheader, hk ▸ hsides⟩, rfl⟩
      · rw [if_neg hk]
        refine .inr ⟨fun w' hw' => hk ?_, rfl⟩
        exact (Assigns.unique (assigns_iff.2 ⟨hr.1 hin, hheader, hsides⟩) hw').1
    · have hskip : r.line (.assignment k w) = r := if_neg hin
      rw [hskip]
      exact .inr ⟨fun w' hw' => hin (hr.2 hw'.inSection), rfl⟩
  · refine .inr ⟨fun w hw => ?_, rfl⟩
    obtain ⟨-, -, hw⟩ := assigns_iff.1 hw
    rw [hw] at hsides
    cases hsides

theorem inSection_readOn (hrest : ∀ s ∈ below, isEntry s) (hr : r.inSection = true ↔ InSection ls) :
    (r.readOn below).inSection = true ↔ InSection (ls ++ below) := by
  induction below using List.reverseRecOn with
  | nil => rwa [List.append_nil]
  | append_singleton below s ih =>
    rw [readOn_concat, ← List.append_assoc]
    exact inSection_line (hrest s (by simp)) (ih fun t ht => hrest t (List.mem_append_left [s] ht))

/-- **What lines below do to the value of a key**: they assign it, and then it does not matter what
it was before, or they leave it. -/
theorem value?_readOn (hrest : ∀ s ∈ below, isEntry s) (hr : r.inSection = true ↔ InSection ls)
    (hkey : IsKey key) :
    (AssignedIn ls below key ∧ ∃ v, ∀ r' : Reader, r'.inSection = r.inSection →
        (r'.readOn below).value? key = some v) ∨
      (¬AssignedIn ls below key ∧ ∀ r' : Reader, r'.inSection = r.inSection →
        (r'.readOn below).value? key = r'.value? key) := by
  induction below using List.reverseRecOn with
  | nil => exact .inr ⟨not_assignedIn_nil, fun _ _ => rfl⟩
  | append_singleton below s ih =>
    have hbelow : ∀ t ∈ below, isEntry t := fun t ht => hrest t (List.mem_append_left [s] ht)
    have hline (r' : Reader) (h : r'.inSection = r.inSection) :=
      value?_line (hrest s (by simp)) (inSection_readOn hbelow (h ▸ hr)) hkey
    rw [assignedIn_concat]
    by_cases hs : ∃ w, Assigns (ls ++ below) s key w
    · obtain ⟨w, hw⟩ := hs
      refine .inl ⟨.inr ⟨w, hw⟩, w, fun r' hr' => ?_⟩
      rw [readOn_concat]
      rcases hline r' hr' with ⟨w', hw', hvalue⟩ | ⟨hnone, -⟩
      · rw [hvalue, (hw.unique hw').2]
      · exact absurd hw (hnone w)
    · have hkept (r' : Reader) (hr' : r'.inSection = r.inSection) :
          (r'.readOn (below ++ [s])).value? key = (r'.readOn below).value? key := by
        rw [readOn_concat]
        rcases hline r' hr' with ⟨w', hw', -⟩ | ⟨-, hvalue⟩
        · exact absurd ⟨w', hw'⟩ hs
        · exact hvalue
      rcases ih hbelow with ⟨hin, v, hv⟩ | ⟨hnot, hsame⟩
      · exact .inl ⟨.inl hin, v, fun r' hr' => (hkept r' hr').trans (hv r' hr')⟩
      · exact .inr ⟨not_or.2 ⟨hnot, hs⟩, fun r' hr' => (hkept r' hr').trans (hsame r' hr')⟩

/-- A reader behind lines knows whether they end in the section that counts, and what they assign
last. -/
structure Tracks (r : Reader) (ls : List (List Char)) : Prop where
  inSection : r.inSection = true ↔ InSection ls
  value : ∀ {key}, IsKey key → ∀ v, r.value? key = some v ↔ LastAssigned ls key v

theorem tracks_start : Tracks {} [] where
  inSection := ⟨(nomatch ·), fun h => absurd h not_inSection_nil⟩
  value {key} _ v := by
    rw [value?_start]
    exact ⟨(nomatch ·), fun h => absurd h not_lastAssigned_nil⟩

theorem Tracks.line (h : Tracks r ls) (hs : isEntry s) :
    Tracks (r.line (.ofTrimmed s)) (ls ++ [s]) where
  inSection := inSection_line hs h.inSection
  value {key} hkey v := by
    rcases value?_line hs h.inSection hkey with ⟨w, hw, hvalue⟩ | ⟨hnone, hvalue⟩
    · rw [hvalue, lastAssigned_concat]
      constructor
      · intro hv
        cases hv
        exact .inl hw
      · rintro (hv | ⟨hnone, -⟩)
        · rw [(hw.unique hv).2]
        · exact absurd hw (hnone w)
    · rw [hvalue, lastAssigned_concat_of_not hnone]
      exact h.value hkey v

theorem tracks_readOn (hls : ∀ s ∈ ls, isEntry s) : Tracks (Reader.readOn {} ls) ls := by
  induction ls using List.reverseRecOn with
  | nil => exact tracks_start
  | append_singleton ls s ih =>
    rw [readOn_concat]
    exact (ih fun t ht => hls t (List.mem_append_left [s] ht)).line (hls s (by simp))

theorem isEntry_of_mem_entries {text : List Char} (h : s ∈ entries text) : isEntry s :=
  (List.mem_filter.1 h).2

/-- **The reader of a text** knows what its lines assign last. -/
theorem tracks_readLines (text : List Char) : Tracks (readLines text) (entries text) := by
  rw [readLines_eq]
  exact tracks_readOn fun s hs => isEntry_of_mem_entries hs

theorem tapeSize_ofText (text : List Char) :
    (ofText text).tapeSize = ((readLines text).value? tapeSizeKey).bind readTapeSize? := rfl

theorem quiet_ofText (text : List Char) :
    (ofText text).quiet = ((readLines text).value? quietKey).bind readSwitch? := rfl

/-- What is read of a key in a text is read of the value that its lines assign last. -/
theorem bind_value?_eq_some_iff {α : Type} {read? : List Char → Option α} {text : List Char} {a : α}
    (hkey : IsKey key) :
    ((readLines text).value? key).bind read? = some a ↔
      ∃ value, LastAssigned (entries text) key value ∧ read? value = some a := by
  have hvalue := (tracks_readLines text).value hkey
  rw [Option.bind_eq_some_iff]
  exact exists_congr fun value => and_congr_left' (hvalue value)

theorem tapeSize_ofText_eq_some_iff {text : List Char} {n : Nat} :
    (ofText text).tapeSize = some n ↔
      ∃ value, LastAssigned (entries text) tapeSizeKey value ∧ readTapeSize? value = some n := by
  rw [tapeSize_ofText]
  exact bind_value?_eq_some_iff (.inl rfl)

theorem quiet_ofText_eq_some_iff {text : List Char} {b : Bool} :
    (ofText text).quiet = some b ↔
      ∃ value, LastAssigned (entries text) quietKey value ∧ readSwitch? value = some b := by
  rw [quiet_ofText]
  exact bind_value?_eq_some_iff (.inr rfl)

/-! ### One line of a text -/

section

variable {above line below : List Char}

/-- A line of a text, with its end, and the texts above and below it. -/
structure IsLine (above line below : List Char) : Prop where
  above_ends : above = [] ∨ above.getLast? = some '\n'
  line_ends : ∃ body, '\n' ∉ body ∧ (line = body ++ ['\n'] ∨ (line = body ∧ below = []))

theorem entries_eq (text : List Char) :
    entries text = ((splitOn '\n' text).map trim).filter isEntry :=
  filter_map_trim_lines rfl text

theorem entries_append (h : above = [] ∨ above.getLast? = some '\n') (text : List Char) :
    entries (above ++ text) = entries above ++ entries text := by
  rcases h with rfl | h
  · rfl
  · obtain ⟨rest, rfl⟩ := List.getLast?_eq_some_iff.1 h
    have hsplit (t : List Char) : entries (rest ++ '\n' :: t) = entries rest ++ entries t := by
      rw [entries_eq, entries_eq rest, entries_eq t, splitOn_append, List.map_append,
        List.filter_append]
    have hnone : entries [] = [] := rfl
    rw [List.append_assoc, List.singleton_append, hsplit, hsplit, hnone, List.append_nil]

theorem entries_of_isLine (h : IsLine above line below) :
    entries (above ++ line ++ below) = entries above ++ (entries line ++ entries below) := by
  rw [List.append_assoc, entries_append h.above_ends]
  obtain ⟨body, -, rfl | ⟨rfl, rfl⟩⟩ := h.line_ends
  · rw [entries_append (.inr List.getLast?_concat)]
  · rw [List.append_nil]
    exact congrArg (entries above ++ ·) (List.append_nil _).symm

theorem entries_erased (h : IsLine above line below) :
    entries (above ++ below) = entries above ++ entries below :=
  entries_append h.above_ends below

/-- The entry of a line, if it is one. -/
theorem entries_line (h : IsLine above line below) (hline : isEntry (trim line)) :
    entries line = [trim line] := by
  obtain ⟨body, hbody, hends⟩ := h.line_ends
  have hblank : isBlank '\n' := by decide
  have hsplit : ((splitOn '\n' line).map trim).filter isEntry = [trim line].filter isEntry := by
    rcases hends with rfl | ⟨rfl, -⟩
    · have htrim : trim ([] ++ body ++ ['\n']) = trim body :=
        trim_append_of_blank (List.forall_mem_nil _) (List.forall_mem_singleton.2 hblank)
      rw [List.nil_append] at htrim
      rw [splitOn_append, splitOn_of_not_mem hbody, splitOn_nil, htrim, List.map_append,
        List.filter_append]
      exact List.append_nil _
    · rw [splitOn_of_not_mem hbody]
      rfl
  rw [entries_eq, hsplit, List.filter_cons_of_pos hline, List.filter_nil]

/-- A reader below lines takes what the next one assigns. -/
theorem line_of_assigns (hr : Tracks r ls) (hs : isEntry s) (h : Assigns ls s key v) :
    r.line (.ofTrimmed s) = r.assign key v := by
  obtain ⟨hsection, hheader, hsides⟩ := assigns_iff.1 h
  rcases ofTrimmed_cases hs with ⟨name, hname, -⟩ | ⟨k, w, -, hkw, hline⟩ | ⟨-, hnone, -⟩
  · exact absurd (isHeader_iff.2 ⟨name, hname⟩) hheader
  · rw [hsides] at hkw
    cases hkw
    rw [hline]
    exact if_pos (hr.inSection.2 hsection)
  · rw [hsides] at hnone
    cases hnone

/-- The reader of a text, from what one of its lines assigns. -/
theorem readLines_of_assigns (h : IsLine above line below) (hline : entries line = [s])
    (hassigns : Assigns (entries above) s key v) :
    readLines (above ++ line ++ below) =
      ((readLines above).assign key v).readOn (entries below) := by
  have hs : isEntry s := isEntry_of_mem_entries (hline ▸ List.mem_singleton_self s)
  rw [readLines_eq, entries_of_isLine h, hline, readOn_append, ← readLines_eq,
    ← line_of_assigns (tracks_readLines above) hs hassigns]
  rfl

/-- What a line assigns is the value of its key, unless a line further down assigns the key. -/
theorem value?_of_not_assignedIn (h : IsLine above line below) (hline : entries line = [s])
    (hassigns : Assigns (entries above) s key v) (hkey : IsKey key)
    (hlast : ¬AssignedIn (entries above) (entries below) key) :
    (readLines (above ++ line ++ below)).value? key = some v := by
  have hbelow : ∀ t ∈ entries below, isEntry t := fun t => isEntry_of_mem_entries
  rw [readLines_of_assigns h hline hassigns]
  rcases value?_readOn hbelow (tracks_readLines above).inSection hkey with ⟨hin, -⟩ | ⟨-, hsame⟩
  · exact absurd hin hlast
  · rw [hsame _ (inSection_assign (readLines above) key v), value?_assign hkey, if_pos rfl]

end

end FileSettings

end Brainfuck
