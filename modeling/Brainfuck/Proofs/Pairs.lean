import Brainfuck.Proofs.Scan

/-!
# Pairs of brackets

The depth of a position in a text is the number of opens before it less the number of closes. A
scan stops where the depth first falls below the depth that it started from. So both scans find
the same pairs: an open and a close on one level, with nothing below this level in between.

* `partner?_eq_some_iff`, `partner?_eq_none_iff`: where a scan over a list stops.
* `Program.closerAfter?_eq_some_iff`, `Program.openerBefore?_eq_some_iff`: the two scans find the
  pairs, each from its own side.
* `Program.Pair.closer_lt`: a pair that begins inside another ends inside it.
* `Program.exists_pair_of_open`, `Program.exists_pair_of_close`: in a well-bracketed text every
  open has a close, and every close an open.
-/

namespace Brainfuck

/-- By how much a text goes deeper: the number of bytes that do, less the number of those that
come back. -/
def rise (deeper back : UInt8) (text : List UInt8) : Int :=
  (text.count deeper : Int) - text.count back

variable {deeper back b : UInt8}

theorem rise_append (s t : List UInt8) :
    rise deeper back (s ++ t) = rise deeper back s + rise deeper back t := by
  simp only [rise, List.count_append]
  omega

theorem rise_reverse (text : List UInt8) :
    rise deeper back text.reverse = rise deeper back text := by
  simp only [rise, List.count_reverse]

/-- Read the other way round, a text comes back where it went deeper. -/
theorem rise_swap (text : List UInt8) : rise back deeper text = - rise deeper back text := by
  unfold rise
  omega

theorem rise_cons_deeper (h : deeper ≠ back) (text : List UInt8) :
    rise deeper back (deeper :: text) = rise deeper back text + 1 := by
  simp only [rise, List.count_cons_self, List.count_cons_of_ne h]
  omega

theorem rise_cons_back (h : deeper ≠ back) (text : List UInt8) :
    rise deeper back (back :: text) = rise deeper back text - 1 := by
  simp only [rise, List.count_cons_self, List.count_cons_of_ne h.symm]
  omega

theorem rise_cons_plain (hd : b ≠ deeper) (hb : b ≠ back) (text : List UInt8) :
    rise deeper back (b :: text) = rise deeper back text := by
  simp only [rise, List.count_cons_of_ne hd, List.count_cons_of_ne hb]

/-- A text read from some depth on never comes back from where it began. -/
def StaysUp (deeper back : UInt8) (depth : Nat) (text : List UInt8) : Prop :=
  ∀ n, 0 ≤ depth + rise deeper back (text.take n)

section staysUp

variable {depth k : Nat} {text : List UInt8}

theorem staysUp_nil : StaysUp deeper back depth [] := by
  intro n
  simp [rise]

/-- What holds of the beginnings of a text: of the empty one, and of those that have the first
byte. -/
theorem staysUp_cons : StaysUp deeper back depth (b :: text) ↔
    ∀ n, 0 ≤ depth + rise deeper back (b :: text.take n) := by
  constructor
  · intro h n
    exact h (n + 1)
  · intro h n
    cases n with
    | zero => simp [rise]
    | succ n => exact h n

theorem staysUp_cons_deeper (h : deeper ≠ back) :
    StaysUp deeper back depth (deeper :: text) ↔ StaysUp deeper back (depth + 1) text := by
  rw [staysUp_cons]
  refine forall_congr' fun n => ?_
  rw [rise_cons_deeper h]
  omega

theorem staysUp_cons_back_succ (h : deeper ≠ back) :
    StaysUp deeper back (depth + 1) (back :: text) ↔ StaysUp deeper back depth text := by
  rw [staysUp_cons]
  refine forall_congr' fun n => ?_
  rw [rise_cons_back h]
  omega

theorem not_staysUp_cons_back_zero (h : deeper ≠ back) :
    ¬StaysUp deeper back 0 (back :: text) := by
  intro hup
  have hfirst := hup 1
  rw [List.take_succ_cons, rise_cons_back h] at hfirst
  simp [rise] at hfirst

theorem staysUp_cons_plain (hd : b ≠ deeper) (hb : b ≠ back) :
    StaysUp deeper back depth (b :: text) ↔ StaysUp deeper back depth text := by
  rw [staysUp_cons]
  refine forall_congr' fun n => ?_
  rw [rise_cons_plain hd hb]

/-- **A scan goes off the text** that never comes back from where the scan began. -/
theorem partner?_eq_none_iff (h : deeper ≠ back) :
    partner? deeper back depth text = none ↔ StaysUp deeper back depth text := by
  induction text generalizing depth with
  | nil => simp [partner?, staysUp_nil]
  | cons b rest ih =>
    by_cases hd : b = deeper
    · subst hd
      rw [partner?_cons_deeper, Option.map_eq_none_iff, ih, staysUp_cons_deeper h]
    by_cases hb : b = back
    · subst hb
      cases depth with
      | zero => simp [partner?_cons_back_zero h, not_staysUp_cons_back_zero h]
      | succ depth =>
        rw [partner?_cons_back_succ h, Option.map_eq_none_iff, ih, staysUp_cons_back_succ h]
    · rw [partner?_cons_plain hd hb, Option.map_eq_none_iff, ih, staysUp_cons_plain hd hb]

theorem map_succ_eq_some_iff {found : Option Nat} :
    found.map (· + 1) = some (k + 1) ↔ found = some k := by
  simp [Option.map_eq_some_iff]

/-- **A scan stops** at the first byte that comes back from where the scan began. -/
theorem partner?_eq_some_iff (h : deeper ≠ back) :
    partner? deeper back depth text = some k ↔
      text[k]? = some back ∧ depth + rise deeper back (text.take k) = 0 ∧
        StaysUp deeper back depth (text.take k) := by
  induction text generalizing depth k with
  | nil => simp [partner?]
  | cons b rest ih =>
    by_cases hd : b = deeper
    · subst hd
      rw [partner?_cons_deeper]
      cases k with
      | zero => simp [h]
      | succ k =>
        have hlevel : (depth : Int) + (rise b back (rest.take k) + 1) =
            (depth + 1 : Nat) + rise b back (rest.take k) := by omega
        rw [map_succ_eq_some_iff, ih, List.take_succ_cons, List.getElem?_cons_succ,
          staysUp_cons_deeper h, rise_cons_deeper h, hlevel]
    by_cases hb : b = back
    · subst hb
      cases depth with
      | zero =>
        rw [partner?_cons_back_zero h]
        cases k with
        | zero => simp [rise, staysUp_nil]
        | succ k => simp [not_staysUp_cons_back_zero h]
      | succ depth =>
        rw [partner?_cons_back_succ h]
        cases k with
        | zero =>
          simp only [Option.map_eq_some_iff, Nat.add_one_ne_zero, and_false, exists_false,
            List.take_zero, false_iff]
          rintro ⟨-, hlevel, -⟩
          simp [rise] at hlevel
          omega
        | succ k =>
          have hlevel : ((depth + 1 : Nat) : Int) + (rise deeper b (rest.take k) - 1) =
              depth + rise deeper b (rest.take k) := by omega
          rw [map_succ_eq_some_iff, ih, List.take_succ_cons, List.getElem?_cons_succ,
            staysUp_cons_back_succ h, rise_cons_back h, hlevel]
    · rw [partner?_cons_plain hd hb]
      cases k with
      | zero => simp [hb]
      | succ k =>
        rw [map_succ_eq_some_iff, ih, List.take_succ_cons, List.getElem?_cons_succ,
          staysUp_cons_plain hd hb, rise_cons_plain hd hb]

end staysUp

namespace Program

/-- The depth of a position: the opens before it less the closes. -/
def depth (p : Program) (n : Nat) : Int := rise openByte closeByte (p.text.take n)

variable {p : Program} {i j k l : Nat}

theorem depth_add (p : Program) (i n : Nat) :
    p.depth (i + n) = p.depth i + rise openByte closeByte ((p.text.drop i).take n) := by
  rw [depth, List.take_add, rise_append, depth]

theorem depth_succ_of_open (h : p.byteAt? i = some openByte) :
    p.depth (i + 1) = p.depth i + 1 := by
  rw [depth_add, take_one_drop_text h]
  rfl

theorem depth_succ_of_close (h : p.byteAt? i = some closeByte) :
    p.depth (i + 1) = p.depth i - 1 := by
  rw [depth_add, take_one_drop_text h]
  rfl

/-- The depth stays as it is at a comment, at a command that is no bracket, and past the end. -/
theorem depth_succ_of_ne (ho : p.byteAt? i ≠ some openByte) (hc : p.byteAt? i ≠ some closeByte) :
    p.depth (i + 1) = p.depth i := by
  rw [depth_add]
  cases hb : p.byteAt? i with
  | none =>
    have hend : p.text.length ≤ i := by
      rw [length_text]
      exact (byteAt?_eq_none_iff p i).1 hb
    rw [List.drop_eq_nil_of_le hend]
    simp [rise]
  | some b =>
    have hbo : b ≠ openByte := fun heq => ho (by rw [hb, heq])
    have hbc : b ≠ closeByte := fun heq => hc (by rw [hb, heq])
    rw [take_one_drop_text hb, rise_cons_plain hbo hbc]
    simp [rise]

theorem length_take_text (h : j ≤ p.bytes.size) : (p.text.take j).length = j := by
  rw [List.length_take, length_text, Nat.min_eq_left h]

/-- Read backwards from a position, the text rises by as much as the depth is higher where the
reading comes to. -/
theorem rise_take_reverse (h : j ≤ p.bytes.size) {n : Nat} (hn : n ≤ j) :
    rise closeByte openByte ((p.text.take j).reverse.take n) = p.depth (j - n) - p.depth j := by
  have hsplit := depth_add p (j - n) n
  rw [Nat.sub_add_cancel hn] at hsplit
  rw [List.take_reverse, length_take_text h, rise_reverse, rise_swap, List.drop_take, hsplit,
    Nat.sub_sub_self hn]
  omega

/-- An open and a close on one level, with nothing below this level in between. -/
structure Pair (p : Program) (i j : Nat) : Prop where
  opens : p.byteAt? i = some openByte
  closes : p.byteAt? j = some closeByte
  lt : i < j
  level : p.depth j = p.depth (i + 1)
  inside : ∀ n, i < n → n ≤ j → p.depth (i + 1) ≤ p.depth n

/-- The scan to the right goes off the text if no position behind its open is less deep. -/
theorem closerAfter?_eq_none_iff :
    p.closerAfter? i = none ↔ ∀ n, i < n → p.depth (i + 1) ≤ p.depth n := by
  rw [closerAfter?_eq_partner?, Option.map_eq_none_iff,
    partner?_eq_none_iff openByte_ne_closeByte]
  constructor
  · intro h n hn
    obtain ⟨d, rfl⟩ : ∃ d, n = i + 1 + d := ⟨n - (i + 1), by omega⟩
    have hd := h d
    have hdepth := depth_add p (i + 1) d
    omega
  · intro h d
    have hd := h (i + 1 + d) (by omega)
    have hdepth := depth_add p (i + 1) d
    omega

/-- The scan to the left goes off the text if no position before its close is less deep. -/
theorem openerBefore?_eq_none_iff (hj : j ≤ p.bytes.size) :
    p.openerBefore? j = none ↔ ∀ n ≤ j, p.depth j ≤ p.depth n := by
  rw [openerBefore?_eq_partner? p hj, Option.map_eq_none_iff,
    partner?_eq_none_iff openByte_ne_closeByte.symm]
  constructor
  · intro h n hn
    have hback := h (j - n)
    rw [rise_take_reverse hj (by omega), Nat.sub_sub_self hn] at hback
    omega
  · intro h d
    -- no more of the text can be read backwards than there is
    have htake : (p.text.take j).reverse.take d = (p.text.take j).reverse.take (min d j) := by
      rw [List.take_eq_take_iff, List.length_reverse, length_take_text hj]
      omega
    have hback := h (j - min d j) (by omega)
    rw [htake, rise_take_reverse hj (Nat.min_le_right d j)]
    omega

/-- **The scan to the right** from an open finds its pair. -/
theorem closerAfter?_eq_some_iff (hi : p.byteAt? i = some openByte) :
    p.closerAfter? i = some j ↔ p.Pair i j := by
  rw [closerAfter?_eq_partner?, Option.map_eq_some_iff]
  simp only [partner?_eq_some_iff openByte_ne_closeByte, List.getElem?_drop, ← byteAt?_eq_text]
  constructor
  · rintro ⟨k, ⟨hclose, hlevel, hup⟩, rfl⟩
    rw [Nat.add_comm k]
    refine ⟨hi, hclose, by omega, ?_, ?_⟩
    · have hdepth := depth_add p (i + 1) k
      omega
    · intro n hin hnk
      obtain ⟨d, rfl⟩ : ∃ d, n = i + 1 + d := ⟨n - (i + 1), by omega⟩
      have hd := hup d
      have hdepth := depth_add p (i + 1) d
      rw [List.take_take, Nat.min_eq_left (by omega)] at hd
      omega
  · intro h
    have hlt := h.lt
    obtain ⟨k, rfl⟩ : ∃ k, j = i + 1 + k := ⟨j - (i + 1), by omega⟩
    have hlevel := h.level
    have hdepth := depth_add p (i + 1) k
    refine ⟨k, ⟨h.closes, by omega, ?_⟩, by omega⟩
    intro d
    have hd := h.inside (i + 1 + min d k) (by omega) (by omega)
    have hdepth := depth_add p (i + 1) (min d k)
    rw [List.take_take]
    omega

/-- **The scan to the left** from a close finds its pair. -/
theorem openerBefore?_eq_some_iff (hj : p.byteAt? j = some closeByte) :
    p.openerBefore? j = some i ↔ p.Pair i j := by
  have hle : j ≤ p.bytes.size := Nat.le_of_lt (Array.getElem?_eq_some_iff.1 hj).1
  have hlength := length_take_text hle
  -- the byte `k` steps before `j`
  have hbyte : ∀ k < j, (p.text.take j).reverse[k]? = p.byteAt? (j - 1 - k) := by
    intro k hk
    rw [List.getElem?_reverse (by omega), hlength, List.getElem?_take_of_lt (by omega),
      byteAt?_eq_text]
  rw [openerBefore?_eq_partner? p hle, Option.map_eq_some_iff]
  simp only [partner?_eq_some_iff openByte_ne_closeByte.symm]
  constructor
  · rintro ⟨k, ⟨hopen, hlevel, hup⟩, rfl⟩
    have hk : k < j := by
      have := (List.getElem?_eq_some_iff.1 hopen).1
      rwa [List.length_reverse, hlength] at this
    rw [hbyte k hk] at hopen
    rw [rise_take_reverse hle (by omega)] at hlevel
    have hnext : j - 1 - k + 1 = j - k := by omega
    refine ⟨hopen, hj, by omega, by rw [hnext]; omega, ?_⟩
    intro n hin hnj
    have hn := hup (j - n)
    rw [List.take_take, Nat.min_eq_left (by omega), rise_take_reverse hle (by omega),
      Nat.sub_sub_self hnj] at hn
    rw [hnext]
    omega
  · intro h
    have hlt := h.lt
    have hlevel := h.level
    have hback : j - (j - 1 - i) = i + 1 := by omega
    refine ⟨j - 1 - i, ⟨?_, ?_, ?_⟩, by omega⟩
    · rw [hbyte _ (by omega), show j - 1 - (j - 1 - i) = i by omega]
      exact h.opens
    · rw [rise_take_reverse hle (by omega), hback]
      omega
    · intro d
      have hd := h.inside (j - min d (j - 1 - i)) (by omega) (by omega)
      rw [List.take_take, rise_take_reverse hle (by omega)]
      omega

/-- What a seek from behind an open answers. -/
theorem seekForward_eq_ok_iff : p.seekForward (i + 1) = .ok (j + 1) ↔ p.Pair i j := by
  unfold seekForward
  rw [Nat.add_sub_cancel]
  constructor
  · intro h
    split at h
    · rename_i hopen
      split at h
      · rename_i j' hj'
        cases h
        exact (closerAfter?_eq_some_iff hopen.2).1 hj'
      · cases h
    · cases h
  · intro h
    rw [if_pos ⟨Nat.succ_pos i, h.opens⟩, (closerAfter?_eq_some_iff h.opens).2 h]

namespace Pair

theorem closer_unique (h : p.Pair i j) (h' : p.Pair i l) : j = l := by
  have hj := (closerAfter?_eq_some_iff h.opens).2 h
  have hl := (closerAfter?_eq_some_iff h.opens).2 h'
  exact Option.some.inj (hj.symm.trans hl)

theorem opener_unique (h : p.Pair i j) (h' : p.Pair k j) : i = k := by
  have hi := (openerBefore?_eq_some_iff h.closes).2 h
  have hk := (openerBefore?_eq_some_iff h.closes).2 h'
  exact Option.some.inj (hi.symm.trans hk)

theorem opener_ne_closer (h : p.Pair i j) (h' : p.Pair k l) : i ≠ l := by
  rintro rfl
  have hbyte := h.opens
  rw [h'.closes] at hbyte
  cases hbyte

/-- **Pairs do not cross**: one that begins inside another ends inside it. -/
theorem closer_lt (h : p.Pair i j) (h' : p.Pair k l) (hik : i < k) (hkj : k < j) : l < j := by
  -- behind the inner open the text is deeper than at the outer close
  have hdeeper := depth_succ_of_open h'.opens
  have hinside := h.inside k hik (Nat.le_of_lt hkj)
  have hlevel := h.level
  refine Nat.lt_of_not_le ?_
  intro hle
  have hj := h'.inside j hkj hle
  omega

end Pair

end Program

/-- Well-bracketed text comes back to the depth that it started from. -/
theorem rise_of_wellBracketed {text : List UInt8} (h : WellBracketed text) :
    rise openByte closeByte text = 0 := by
  induction h with
  | nil => rfl
  | plain ho hc _ ih => rw [rise_cons_plain ho hc, ih]
  | loop _ _ ihb iht =>
    rw [rise_append, rise_cons_deeper openByte_ne_closeByte, ihb,
      rise_cons_back openByte_ne_closeByte, iht]
    rfl

theorem staysUp_of_wellBracketed {text : List UInt8} (h : WellBracketed text) :
    StaysUp openByte closeByte 0 text := by
  have hscan := partner?_append h 0 []
  rw [List.append_nil] at hscan
  exact (partner?_eq_none_iff openByte_ne_closeByte).1 hscan

theorem Program.depth_nonneg {p : Program} (hp : WellBracketed p.text) (n : Nat) :
    0 ≤ p.depth n := by
  have hup := staysUp_of_wellBracketed hp n
  unfold depth
  omega

/-- **In a well-bracketed text every open has a close.** -/
theorem Program.exists_pair_of_open {p : Program} {i : Nat} (hp : WellBracketed p.text)
    (hi : p.byteAt? i = some openByte) : ∃ j, p.Pair i j := by
  cases hj : p.closerAfter? i with
  | some j => exact ⟨j, (closerAfter?_eq_some_iff hi).1 hj⟩
  | none =>
    -- behind the open the text is deeper than at its end
    exfalso
    have hlt : i < p.bytes.size := (Array.getElem?_eq_some_iff.1 hi).1
    have hend : p.depth p.bytes.size = 0 := by
      rw [depth, ← length_text, List.take_length, rise_of_wellBracketed hp]
    have hup := depth_nonneg hp i
    have hdeeper := depth_succ_of_open hi
    have hback := closerAfter?_eq_none_iff.1 hj p.bytes.size hlt
    omega

/-- **In a well-bracketed text every close has an open.** -/
theorem Program.exists_pair_of_close {p : Program} {j : Nat} (hp : WellBracketed p.text)
    (hj : p.byteAt? j = some closeByte) : ∃ i, p.Pair i j := by
  cases hi : p.openerBefore? j with
  | some i => exact ⟨i, (openerBefore?_eq_some_iff hj).1 hi⟩
  | none =>
    -- behind the close the text is lower than at its beginning
    exfalso
    have hle : j ≤ p.bytes.size := Nat.le_of_lt (Array.getElem?_eq_some_iff.1 hj).1
    have hstart : p.depth 0 = 0 := rfl
    have hlow := (openerBefore?_eq_none_iff hle).1 hi 0 (Nat.zero_le j)
    have hlower := depth_succ_of_close hj
    have hup := depth_nonneg hp (j + 1)
    omega

end Brainfuck
