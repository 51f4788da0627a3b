import Brainfuck.Proofs.Assignments
import Brainfuck.Proofs.Values

/-!
# Slices

The reader of settings once more, as a computer runs it that holds text as bytes. A character takes
up as many bytes as its encoding has, a part of a text is cut out between two offsets in bytes, and
nothing is promised of the offsets: a part that is out of bounds, or that begins or ends inside a
character, is a fault, which breaks off the reading. The reader keeps the values of all keys, and
looks up those that count when it is through.

* `splitBytes`, `slice`: cutting, with its checks.
* `FileSettings.RawReader.line`, `FileSettings.checkedOfText`: the reader that cuts.
* `FileSettings.Keeps.line`: no line makes it fail, and it finds what the reader of lines finds.
* `FileSettings.means_last_assignment`: what a settings file means.
-/

namespace Brainfuck

/-- Why a part of a text cannot be cut out. -/
inductive SliceFault where
  /-- It ends before it begins, or behind the end of the text. -/
  | outOfBounds
  /-- It begins or ends inside a character. -/
  | insideCharacter
  /-- Its offsets are reckoned from a text that is too short. -/
  | belowZero
  deriving DecidableEq, Repr

/-- The number of bytes of a text. -/
def byteLength : List Char → Nat
  | [] => 0
  | c :: s => c.utf8Size + byteLength s

/-- The text before an offset and the text behind it. -/
def splitBytes : List Char → Nat → Except SliceFault (List Char × List Char)
  | s, 0 => .ok ([], s)
  | [], _ + 1 => .error .outOfBounds
  | c :: s, n + 1 =>
    if c.utf8Size ≤ n + 1 then
      (splitBytes s (n + 1 - c.utf8Size)).map fun parts => (c :: parts.1, parts.2)
    else .error .insideCharacter

/-- The text from one offset up to another. -/
def slice (s : List Char) (i j : Nat) : Except SliceFault (List Char) :=
  if i ≤ j then do
    let (_, rest) ← splitBytes s i
    let (part, _) ← splitBytes rest (j - i)
    return part
  else .error .outOfBounds

/-- The text without its first byte and its last. -/
def innerBytes (s : List Char) : Except SliceFault (List Char) :=
  if 1 ≤ byteLength s then slice s 1 (byteLength s - 1) else .error .belowZero

/-- The offset at which a character first stands. -/
def offset? (c : Char) : List Char → Option Nat
  | [] => none
  | d :: s => if d = c then some 0 else (offset? c s).map (d.utf8Size + ·)

variable {s t u : List Char} {a b c : Char}

theorem byteLength_cons (c : Char) (s : List Char) :
    byteLength (c :: s) = c.utf8Size + byteLength s := rfl

theorem byteLength_append (s t : List Char) :
    byteLength (s ++ t) = byteLength s + byteLength t := by
  induction s with
  | nil => exact (Nat.zero_add (byteLength t)).symm
  | cons c s ih => rw [List.cons_append, byteLength_cons, ih, byteLength_cons, Nat.add_assoc]

/-- **The end of a whole number of characters is no fault.** -/
theorem splitBytes_append (s t : List Char) : splitBytes (s ++ t) (byteLength s) = .ok (s, t) := by
  induction s with
  | nil => cases t <;> rfl
  | cons c s ih =>
    have hpos := c.utf8Size_pos
    obtain ⟨n, hn⟩ : ∃ n, byteLength (c :: s) = n + 1 :=
      Nat.exists_eq_succ_of_ne_zero (by rw [byteLength_cons]; omega)
    have hrest : n + 1 - c.utf8Size = byteLength s := by
      rw [← hn, byteLength_cons]
      omega
    have hfits : c.utf8Size ≤ n + 1 := by
      rw [← hn, byteLength_cons]
      omega
    rw [hn, List.cons_append, splitBytes, if_pos hfits, hrest, ih]
    rfl

theorem slice_append (s t u : List Char) :
    slice (s ++ (t ++ u)) (byteLength s) (byteLength s + byteLength t) = .ok t := by
  have hle : byteLength s ≤ byteLength s + byteLength t := Nat.le_add_right _ _
  rw [slice, if_pos hle, splitBytes_append, Nat.add_sub_cancel_left]
  show (splitBytes (t ++ u) (byteLength t) >>= fun parts => pure parts.1) = .ok t
  rw [splitBytes_append]
  rfl

theorem innerBytes_cons_concat (ha : a.utf8Size = 1) (hb : b.utf8Size = 1) (t : List Char) :
    innerBytes (a :: (t ++ [b])) = .ok t := by
  have hfirst : byteLength [a] = 1 := by
    rw [byteLength_cons, ha]
    rfl
  have hlength : byteLength (a :: (t ++ [b])) = 1 + byteLength t + 1 := by
    rw [byteLength_cons, byteLength_append, byteLength_cons, ha, hb]
    rfl
  have hslice := slice_append [a] t [b]
  rw [hfirst] at hslice
  rw [innerBytes, if_pos (by omega), hlength, Nat.add_sub_cancel]
  exact hslice

theorem offset?_append_cons (h : c ∉ s) (t : List Char) :
    offset? c (s ++ c :: t) = some (byteLength s) := by
  induction s with
  | nil => exact if_pos rfl
  | cons d s ih =>
    have hd : d ≠ c := fun heq => h (heq ▸ List.mem_cons_self)
    have hs : c ∉ s := fun hmem => h (List.mem_cons_of_mem d hmem)
    rw [List.cons_append, offset?, if_neg hd, ih hs, byteLength_cons]
    rfl

theorem offset?_eq_none (h : c ∉ s) : offset? c s = none := by
  induction s with
  | nil => rfl
  | cons d s ih =>
    have hd : d ≠ c := fun heq => h (heq ▸ List.mem_cons_self)
    have hs : c ∉ s := fun hmem => h (List.mem_cons_of_mem d hmem)
    rw [offset?, if_neg hd, ih hs]
    rfl

namespace FileSettings

/-! ### The reader that cuts -/

/-- A reader of settings between two lines: whether it is in the section that counts, and the last
value of every key. -/
structure RawReader where
  inSection : Bool := false
  values : List Char → Option (List Char) := fun _ => none

/-- Cuts the double quotes off a value that has them at both ends. -/
def cutQuotes (s : List Char) : Except SliceFault (List Char) :=
  if s.head? = some '"' ∧ s.getLast? = some '"' ∧ 2 ≤ byteLength s then innerBytes s else .ok s

namespace RawReader

/-- Assigns a value to a key, whatever its value was. -/
def insert (r : RawReader) (key value : List Char) : RawReader :=
  { r with values := fun k => if k = key then some value else r.values k }

/-- Cuts an assignment at its equals sign. -/
def assignment (r : RawReader) (s : List Char) (equals : Nat) : Except SliceFault RawReader := do
  let key ← slice s 0 equals
  let value ← slice s (equals + 1) (byteLength s)
  let value ← cutQuotes (trim value)
  return r.insert (trim key) value

/-- Reads a line. -/
def line (r : RawReader) (text : List Char) : Except SliceFault RawReader :=
  let s := trim text
  if s = [] ∨ s.head? = some '#' then .ok r
  else if s.head? = some '[' ∧ s.getLast? = some ']' then do
    let name ← innerBytes s
    return { r with inSection := name = sectionName }
  else if r.inSection then
    match offset? '=' s with
    | some equals => r.assignment s equals
    | none => .ok r
  else .ok r

/-- The settings that a reader has found. -/
def settings (r : RawReader) : FileSettings where
  tapeSize := (r.values tapeSizeKey).bind readTapeSize?
  quiet := (r.values quietKey).bind readSwitch?

end RawReader

/-- The settings in a text, with every cut checked. -/
def checkedOfText (text : List Char) : Except SliceFault FileSettings := do
  let r ← (lines text).foldlM RawReader.line {}
  return r.settings

variable {raw : RawReader} {r : Reader} {key v : List Char}

/-- Quotes at both ends of a value are two bytes of it. -/
theorem quoted_iff :
    (s.head? = some '"' ∧ s.getLast? = some '"' ∧ 2 ≤ byteLength s) ↔
      ∃ t, s = '"' :: (t ++ ['"']) := by
  rw [← eq_cons_concat_iff]
  constructor
  · rintro ⟨hhead, hlast, hlength⟩
    refine ⟨?_, hhead, hlast⟩
    match s, hhead, hlength with
    | [c], hhead, hlength =>
      cases hhead
      exact absurd hlength (by decide)
    | _ :: _ :: _, _, _ => simp
  · rintro ⟨hlength, hhead, hlast⟩
    refine ⟨hhead, hlast, ?_⟩
    match s, hlength with
    | c :: d :: s, _ =>
      have hc := c.utf8Size_pos
      have hd := d.utf8Size_pos
      rw [byteLength_cons, byteLength_cons]
      omega

theorem cutQuotes_eq (h : Unquoted s v) : cutQuotes s = .ok v := by
  unfold cutQuotes
  rcases h with hs | ⟨rfl, hnot⟩
  · rw [if_pos (quoted_iff.2 ⟨v, hs⟩), hs]
    exact innerBytes_cons_concat (by decide) (by decide) v
  · rw [eq_cons_concat_iff] at hnot
    exact if_neg fun hquoted => hnot (quoted_iff.1 hquoted)

theorem assignment_append_cons (hv : Unquoted (trim t) v) :
    raw.assignment (s ++ '=' :: t) (byteLength s) = .ok (raw.insert (trim s) v) := by
  have hkey : slice (s ++ '=' :: t) 0 (byteLength s) = .ok s := by
    have hslice := slice_append [] s ('=' :: t)
    rwa [List.nil_append, show byteLength [] = 0 from rfl, Nat.zero_add] at hslice
  have hvalue : slice (s ++ '=' :: t) (byteLength s + 1) (byteLength (s ++ '=' :: t)) = .ok t := by
    have hslice := slice_append (s ++ ['=']) t []
    have hequals : byteLength (s ++ ['=']) = byteLength s + 1 := byteLength_append s ['=']
    have hall : byteLength (s ++ '=' :: t) = byteLength s + 1 + byteLength t := by
      rw [byteLength_append, byteLength_cons, ← Nat.add_assoc]
      rfl
    rwa [List.append_nil, List.append_assoc, List.singleton_append, hequals, ← hall] at hslice
  unfold RawReader.assignment
  rw [hkey, hvalue]
  show (cutQuotes (trim t) >>= fun value => pure (raw.insert (trim s) value)) = _
  rw [cutQuotes_eq hv]
  rfl

/-- The reader that cuts knows what the reader of lines knows. -/
structure Keeps (raw : RawReader) (r : Reader) : Prop where
  inSection : raw.inSection = r.inSection
  value : ∀ {key}, IsKey key → raw.values key = r.value? key

theorem Keeps.insert (h : Keeps raw r) (key v : List Char) :
    Keeps (raw.insert key v) (r.assign key v) where
  inSection := by
    rw [inSection_assign]
    exact h.inSection
  value {k} hk := by
    rw [value?_assign hk, ← h.value hk]
    exact if_congr eq_comm rfl rfl

/-- **No line makes the reader fail**, and it keeps up with the reader of lines. -/
theorem Keeps.line (h : Keeps raw r) (text : List Char) :
    ∃ raw', raw.line text = .ok raw' ∧ Keeps raw' (r.line (.ofText text)) := by
  have htext : Line.ofText text = Line.ofTrimmed (trim text) := rfl
  rw [htext]
  unfold RawReader.line
  dsimp only
  generalize trim text = s
  by_cases hskipped : s = [] ∨ s.head? = some '#'
  · have hline : Line.ofTrimmed s = .skipped := if_pos hskipped
    rw [if_pos hskipped, hline]
    exact ⟨raw, rfl, h⟩
  rw [if_neg hskipped]
  have hentry : isEntry s := decide_eq_true (not_or.1 hskipped)
  rcases ofTrimmed_cases hentry with ⟨name, hname, hline⟩ | ⟨k, w, hheader, hsides, hline⟩ |
    ⟨hheader, hsides, hline⟩ <;> rw [hline]
  · have hends : s.head? = some '[' ∧ s.getLast? = some ']' := isHeader_iff.2 ⟨name, hname⟩
    rw [if_pos hends, hname, innerBytes_cons_concat (by decide) (by decide)]
    exact ⟨_, rfl, rfl, h.value⟩
  · have hends : ¬(s.head? = some '[' ∧ s.getLast? = some ']') := hheader
    rw [if_neg hends, h.inSection]
    by_cases hin : r.inSection = true
    · obtain ⟨left, right, rfl, hleft, rfl, hw⟩ := assignment?_eq_some_iff.1 hsides
      have hassign : r.line (.assignment (trim left) w) = r.assign (trim left) w := if_pos hin
      rw [if_pos hin, offset?_append_cons hleft, hassign]
      exact ⟨_, assignment_append_cons hw, h.insert (trim left) w⟩
    · have hskip : r.line (.assignment k w) = r := if_neg hin
      rw [if_neg hin, hskip]
      exact ⟨raw, rfl, h⟩
  · have hends : ¬(s.head? = some '[' ∧ s.getLast? = some ']') := hheader
    have hnone : offset? '=' s = none := by
      refine offset?_eq_none fun hmem => ?_
      obtain ⟨left, right, rfl, hleft⟩ := List.eq_append_cons_of_mem hmem
      rw [assignment?_append_cons hleft] at hsides
      cases hsides
    rw [if_neg hends, hnone, ite_self]
    exact ⟨raw, rfl, h⟩

theorem Keeps.foldlM (h : Keeps raw r) (ls : List (List Char)) :
    ∃ raw', ls.foldlM RawReader.line raw = .ok raw' ∧
      Keeps raw' (ls.foldl (fun r s => r.line (.ofText s)) r) := by
  induction ls generalizing raw r with
  | nil => exact ⟨raw, rfl, h⟩
  | cons l ls ih =>
    obtain ⟨raw', hraw, hkeeps⟩ := h.line l
    rw [List.foldlM_cons, hraw, List.foldl_cons]
    exact ih hkeeps

theorem keeps_start : Keeps {} {} where
  inSection := rfl
  value {key} _ := (value?_start key).symm

/-- **Every cut is in bounds and between characters**, and the settings are those of the text. -/
theorem checkedOfText_eq (text : List Char) : checkedOfText text = .ok (ofText text) := by
  obtain ⟨raw, hraw, hkeeps⟩ := keeps_start.foldlM (lines text)
  have hread : (lines text).foldl (fun r s => Reader.line r (.ofText s)) {} = readLines text := by
    rw [readLines_eq, entries, readOn_filter, Reader.readOn, List.foldl_map]
    rfl
  rw [hread] at hkeeps
  have hsettings : raw.settings = ofText text := by
    unfold RawReader.settings
    rw [hkeeps.value (.inl rfl), hkeeps.value (.inr rfl)]
    rfl
  unfold checkedOfText
  rw [hraw, ← hsettings]
  rfl

/-- **A settings file means its last assignments.** Reading a text never cuts it out of bounds or
inside a character. The tape size that it gives is the number that the last value of its key denotes
in decimal digits, when the blanks around them and then the underscores are taken away, if the
number is an index and not zero. The quiet switch is on or off where the last value of its key is
one of the words for it, with blanks around it or not and in letters of either case. A key that no
line in the section assigns, and a last value that is not written like this, give nothing. -/
theorem means_last_assignment (text : List Char) :
    checkedOfText text = .ok (ofText text) ∧
    (∀ n, (ofText text).tapeSize = some n ↔
      ∃ value, LastAssigned (entries text) tapeSizeKey value ∧
        Numeral.Denotes ((trim value).filter (· != '_')) n ∧ 1 ≤ n ∧ n ≤ 2 ^ 64 - 1) ∧
    (∀ b, (ofText text).quiet = some b ↔
      ∃ value, LastAssigned (entries text) quietKey value ∧ Switch.Denotes (trim value) b) := by
  refine ⟨checkedOfText_eq text, fun n => ?_, fun b => ?_⟩
  · rw [tapeSize_ofText_eq_some_iff]
    exact exists_congr fun value => and_congr_right fun _ => readTapeSize?_eq_some_iff
  · rw [quiet_ofText_eq_some_iff]
    exact exists_congr fun value => and_congr_right fun _ => readSwitch?_eq_some_iff

/-- The last word for quiet in the section that counts turns quiet on, and with one line more it
turns quiet off. -/
theorem means_last_assignment_of_switches :
    let on := ("[interpreter]\nquiet = no\n tape_size = \" 1_024\u2003\"\n[x]\r\nquiet = 0\n" ++
      "[interpreter]\r\nquiet=\" Yes\"").toList
    let off := on ++ "\nquiet = OFF\n[y]\ntape_size = 7".toList
    (LastAssigned (entries on) quietKey " Yes".toList ∧
      Switch.Denotes (trim " Yes".toList) true ∧ (ofText on).quiet = some true) ∧
    (LastAssigned (entries off) quietKey "OFF".toList ∧
      Switch.Denotes (trim "OFF".toList) false ∧
      LastAssigned (entries off) tapeSizeKey " 1_024\u2003".toList ∧
      Numeral.Denotes ((trim " 1_024\u2003".toList).filter (· != '_')) 1024 ∧
      checkedOfText off = .ok ⟨some 1024, some false⟩) := by
  intro on off
  have hyes : LastAssigned (entries on) quietKey " Yes".toList :=
    ((tracks_readLines on).value (.inr rfl) _).1 (by decide +kernel)
  have hoff : LastAssigned (entries off) quietKey "OFF".toList :=
    ((tracks_readLines off).value (.inr rfl) _).1 (by decide +kernel)
  have hsize : LastAssigned (entries off) tapeSizeKey " 1_024\u2003".toList :=
    ((tracks_readLines off).value (.inl rfl) _).1 (by decide +kernel)
  have hyesWord : Switch.Denotes (trim " Yes".toList) true :=
    ⟨"yes", by decide, .cons (.inr (by decide)) (.cons (.inl rfl) (.cons (.inl rfl) .nil))⟩
  have hoffWord : Switch.Denotes (trim "OFF".toList) false :=
    ⟨"off", by decide, .cons (.inr (by decide)) (.cons (.inr (by decide))
      (.cons (.inr (by decide)) .nil))⟩
  have hnumber : Numeral.Denotes ((trim " 1_024\u2003".toList).filter (· != '_')) 1024 :=
    ⟨"1024".toList, .inl (by decide), by decide, List.all_eq_true.1 (by decide), by decide⟩
  obtain ⟨-, -, hswitches⟩ := means_last_assignment on
  obtain ⟨hchecked, hsizes, hswitches'⟩ := means_last_assignment off
  have hsettings : ofText off = ⟨some 1024, some false⟩ := congrArg₂ FileSettings.mk
    ((hsizes 1024).2 ⟨_, hsize, hnumber, by decide, by decide⟩)
    ((hswitches' false).2 ⟨_, hoff, hoffWord⟩)
  rw [hsettings] at hchecked
  exact ⟨⟨hyes, hyesWord, (hswitches true).2 ⟨_, hyes, hyesWord⟩⟩, hoff, hoffWord, hsize, hnumber,
    hchecked⟩

/-- A section that is opened twice, a header and a comment that look like assignments, and a quote
that stands alone. -/
example : checkedOfText ("[interpreter]\nquiet = on\ntape_size = \"7\"\n[a=b]\ntape_size = 8\n" ++
    "[interpreter]\r\n# tape_size = 9\n quiet = \"\n\u2003[tape_size] = 10").toList =
      .ok { tapeSize := some 7, quiet := none } := by
  decide +kernel

end FileSettings

end Brainfuck
