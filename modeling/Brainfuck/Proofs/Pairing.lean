import Brainfuck.Proofs.Partners

/-!
# Pairing in one pass

One pass over a text, with a stack of the opens that wait for their close, finds for each bracket
the partner that the scans find, and leaves over the brackets whose scans go off the text. What
ties the stack to the scans is the depth: from one open on the stack to the next, and from the
innermost to where the pass stands, the text comes back to its level and is never below it.

* `Program.Waiting`: the opens that wait at a position, as the depth determines them.
* `Program.Waiting.mem_iff`: they are the opens behind which the text has stayed up.
* `Program.Found.look`, `Program.found_ofText`: what the pass has found up to a position, byte by
  byte and of the whole text.
* `Program.wellBracketed_text_iff`: a text in which all brackets are paired is well bracketed.
* `Program.seeks_agree_with_pairing`: the pass and the scans agree on every bracket.
-/

namespace Brainfuck

namespace Pairing

variable {q : Pairing} {i j : Nat}

theorem mem_of_closer? (h : q.closer? i = some j) : (i, j) ∈ q.pairs := by
  obtain ⟨⟨i', j'⟩, hfind, rfl⟩ := Option.map_eq_some_iff.1 h
  have heq : i' = i := by simpa using List.find?_some hfind
  exact heq ▸ List.mem_of_find?_eq_some hfind

theorem mem_of_opener? (h : q.opener? j = some i) : (i, j) ∈ q.pairs := by
  obtain ⟨⟨i', j'⟩, hfind, rfl⟩ := Option.map_eq_some_iff.1 h
  have heq : j' = j := by simpa using List.find?_some hfind
  exact heq ▸ List.mem_of_find?_eq_some hfind

theorem exists_closer? (h : (i, j) ∈ q.pairs) : ∃ k, q.closer? i = some k := by
  refine Option.isSome_iff_exists.1 ?_
  rw [closer?, Option.isSome_map, List.find?_isSome]
  exact ⟨(i, j), h, beq_self_eq_true i⟩

theorem exists_opener? (h : (i, j) ∈ q.pairs) : ∃ k, q.opener? j = some k := by
  refine Option.isSome_iff_exists.1 ?_
  rw [opener?, Option.isSome_map, List.find?_isSome]
  exact ⟨(i, j), h, beq_self_eq_true j⟩

end Pairing

/-- What holds of the numbers up to one more holds of those before, or of the last. -/
theorem lt_succ_and_iff {P : Nat → Prop} {j n : Nat} :
    j < n + 1 ∧ P j ↔ (j = n ∧ P n) ∨ (j < n ∧ P j) := by
  constructor
  · rintro ⟨hlt, hj⟩
    rcases Nat.lt_succ_iff_lt_or_eq.1 hlt with hlt | rfl
    · exact .inr ⟨hlt, hj⟩
    · exact .inl ⟨rfl, hj⟩
  · rintro (⟨rfl, hj⟩ | ⟨hlt, hj⟩)
    · exact ⟨Nat.lt_succ_self j, hj⟩
    · exact ⟨Nat.lt_succ_of_lt hlt, hj⟩

namespace Program

variable {p : Program} {i j n : Nat} {stack : List Nat} {b : UInt8}

/-- The opens that wait for their close at position `n`, the innermost first. The text is on the
level behind the innermost, and has not been below it since; and so for the ones further out. With
none, the text is as low as it has ever been. -/
inductive Waiting (p : Program) : Nat → List Nat → Prop where
  | nil {n : Nat} : (∀ k ≤ n, p.depth n ≤ p.depth k) → Waiting p n []
  | cons {n i : Nat} {rest : List Nat} : p.byteAt? i = some openByte → i < n →
      p.depth n = p.depth (i + 1) → (∀ k, i < k → k ≤ n → p.depth (i + 1) ≤ p.depth k) →
      Waiting p i rest → Waiting p n (i :: rest)

namespace Waiting

/-- A byte that is no bracket leaves the opens waiting. -/
theorem plain (h : p.Waiting n stack) (hn : p.depth (n + 1) = p.depth n) :
    p.Waiting (n + 1) stack := by
  cases h with
  | nil hlow =>
    refine .nil ?_
    intro k hk
    rcases Nat.lt_or_eq_of_le hk with hlt | rfl
    · have := hlow k (by omega)
      omega
    · exact Int.le_refl _
  | cons hopen hlt hlevel hinside hrest =>
    refine .cons hopen (by omega) (by omega) ?_ hrest
    intro k hik hk
    rcases Nat.lt_or_eq_of_le hk with hkn | rfl
    · exact hinside k hik (by omega)
    · omega

/-- An open waits too. -/
theorem push (h : p.Waiting n stack) (hb : p.byteAt? n = some openByte) :
    p.Waiting (n + 1) (n :: stack) := by
  refine .cons hb (Nat.lt_succ_self n) rfl ?_ h
  intro k hnk hk
  rw [show k = n + 1 by omega]

/-- **A close goes with the innermost open** that waits. -/
theorem pair (h : p.Waiting n (i :: stack)) (hb : p.byteAt? n = some closeByte) : p.Pair i n := by
  cases h with
  | cons hopen hlt hlevel hinside _ => exact ⟨hopen, hb, hlt, hlevel, hinside⟩

/-- Behind this close the others wait on. -/
theorem pop (h : p.Waiting n (i :: stack)) (hb : p.byteAt? n = some closeByte) :
    p.Waiting (n + 1) stack := by
  have hback := depth_succ_of_close hb
  cases h with
  | cons hopen hlt hlevel hinside hrest =>
    -- the text is back on the level before the open
    have hup := depth_succ_of_open hopen
    cases hrest with
    | nil hlow =>
      refine .nil ?_
      intro k hk
      by_cases hki : k ≤ i
      · have := hlow k hki
        omega
      by_cases hkn : k ≤ n
      · have := hinside k (by omega) hkn
        omega
      · rw [show k = n + 1 by omega]
    | cons hopen' hlt' hlevel' hinside' hrest' =>
      refine .cons hopen' (by omega) (by omega) ?_ hrest'
      intro k hik hk
      by_cases hki : k ≤ i
      · exact hinside' k hik hki
      by_cases hkn : k ≤ n
      · have := hinside k (by omega) hkn
        omega
      · rw [show k = n + 1 by omega]
        omega

/-- A close that finds none goes below all that has been. -/
theorem fall (h : p.Waiting n []) (hb : p.byteAt? n = some closeByte) : p.Waiting (n + 1) [] := by
  have hback := depth_succ_of_close hb
  cases h with
  | nil hlow =>
    refine .nil ?_
    intro k hk
    by_cases hkn : k ≤ n
    · have := hlow k hkn
      omega
    · rw [show k = n + 1 by omega]

/-- And it has no pair. -/
theorem not_pair (h : p.Waiting n []) : ¬p.Pair i n := by
  cases h with
  | nil hlow =>
    intro hpair
    have hup := depth_succ_of_open hpair.opens
    have hlevel := hpair.level
    have := hlow i (Nat.le_of_lt hpair.lt)
    omega

/-- **The opens that wait** are those behind which the text has stayed up. -/
theorem mem_iff (h : p.Waiting n stack) :
    i ∈ stack ↔ i < n ∧ p.byteAt? i = some openByte ∧
      ∀ k, i < k → k ≤ n → p.depth (i + 1) ≤ p.depth k := by
  induction h with
  | @nil n hlow =>
    simp only [List.not_mem_nil, false_iff]
    rintro ⟨hlt, hopen, hup⟩
    have hopened := depth_succ_of_open hopen
    have := hup n hlt (Nat.le_refl n)
    have := hlow i (Nat.le_of_lt hlt)
    omega
  | @cons n top rest hopen hlt hlevel hinside _ ih =>
    have htop := depth_succ_of_open hopen
    rw [List.mem_cons, ih]
    constructor
    · rintro (rfl | ⟨hi, hopen', hup⟩)
      · exact ⟨hlt, hopen, hinside⟩
      · refine ⟨by omega, hopen', ?_⟩
        intro k hik hk
        by_cases hkt : k ≤ top
        · exact hup k hik hkt
        · have := hup top hi (Nat.le_refl top)
          have := hinside k (by omega) hk
          omega
    · rintro ⟨hi, hopen', hup⟩
      rcases Nat.lt_trichotomy i top with hit | rfl | hit
      · exact .inr ⟨hit, hopen', fun k hik hk => hup k hik (by omega)⟩
      · exact .inl rfl
      · -- an open behind the innermost is above its level, and the text has come back to it
        have hopened := depth_succ_of_open hopen'
        have := hinside i hit (Nat.le_of_lt hi)
        have := hup n hi (Nat.le_refl n)
        omega

end Waiting

/-- A close that no open goes with. -/
structure LoneClose (p : Program) (j : Nat) : Prop where
  closes : p.byteAt? j = some closeByte
  alone : ∀ i, ¬p.Pair i j

/-- What a pass has found of the first `n` bytes: the opens that wait, the pairs that are closed,
and the closes that have no open. -/
structure Found (p : Program) (n : Nat) (q : Pairing) : Prop where
  waiting : p.Waiting n q.waiting
  pairs : ∀ i j, (i, j) ∈ q.pairs ↔ j < n ∧ p.Pair i j
  leftOver : ∀ j, j ∈ q.leftOver ↔ j < n ∧ p.LoneClose j

namespace Found

variable {q : Pairing}

theorem none : p.Found 0 .none where
  waiting := .nil fun k hk => by rw [Nat.le_zero.1 hk]
  pairs _ _ := by simp [Pairing.none]
  leftOver _ := by simp [Pairing.none]

/-- **One more byte** of the pass. -/
theorem look (h : p.Found n q) (hb : p.byteAt? n = some b) : p.Found (n + 1) (q.look n b) := by
  -- no bracket is paired with a byte that is no close
  have hsame : b ≠ closeByte →
      (∀ i j, (i, j) ∈ q.pairs ↔ j < n + 1 ∧ p.Pair i j) ∧
      ∀ j, j ∈ q.leftOver ↔ j < n + 1 ∧ p.LoneClose j := by
    intro hne
    have hnclose : p.byteAt? n ≠ some closeByte :=
      fun hc => hne (Option.some.inj (hb.symm.trans hc))
    constructor
    · intro i j
      rw [h.pairs, lt_succ_and_iff]
      exact ⟨.inr, fun hor => hor.resolve_left fun hn => hnclose hn.2.closes⟩
    · intro j
      rw [h.leftOver, lt_succ_and_iff]
      exact ⟨.inr, fun hor => hor.resolve_left fun hn => hnclose hn.2.closes⟩
  by_cases ho : b = openByte
  · subst ho
    obtain ⟨hpairs, hleft⟩ := hsame openByte_ne_closeByte
    rw [Pairing.look, if_pos rfl]
    exact ⟨h.waiting.push hb, hpairs, hleft⟩
  by_cases hc : b = closeByte
  · subst hc
    rw [Pairing.look, if_neg ho, if_pos rfl]
    have hwaiting := h.waiting
    cases hstack : q.waiting with
    | nil =>
      rw [hstack] at hwaiting
      refine ⟨hwaiting.fall hb, ?_, ?_⟩
      · intro i j
        rw [h.pairs, lt_succ_and_iff]
        exact ⟨.inr, fun hor => hor.resolve_left fun hn => hwaiting.not_pair hn.2⟩
      · intro j
        have hlone : p.LoneClose n := ⟨hb, fun _ => hwaiting.not_pair⟩
        rw [List.mem_cons, h.leftOver, lt_succ_and_iff]
        exact or_congr_left ⟨fun hj => ⟨hj, hlone⟩, fun hj => hj.1⟩
    | cons top rest =>
      rw [hstack] at hwaiting
      have hpair := hwaiting.pair hb
      refine ⟨hwaiting.pop hb, ?_, ?_⟩
      · intro i j
        rw [List.mem_cons, h.pairs, lt_succ_and_iff, Prod.mk.injEq]
        refine or_congr_left ⟨?_, fun hj => ⟨hj.2.opener_unique hpair, hj.1⟩⟩
        rintro ⟨rfl, rfl⟩
        exact ⟨rfl, hpair⟩
      · intro j
        rw [h.leftOver, lt_succ_and_iff]
        exact ⟨.inr, fun hor => hor.resolve_left fun hn => hn.2.alone top hpair⟩
  · obtain ⟨hpairs, hleft⟩ := hsame hc
    have hdepth : p.depth (n + 1) = p.depth n := by
      refine depth_succ_of_ne ?_ ?_ <;> rw [hb] <;> simpa
    rw [Pairing.look, if_neg ho, if_neg hc]
    exact ⟨h.waiting.plain hdepth, hpairs, hleft⟩

/-- The rest of the pass. -/
theorem lookAll {rest : List UInt8} (h : p.Found n q) (hrest : p.text.drop n = rest) :
    p.Found (n + rest.length) (q.lookAll n rest) := by
  induction rest generalizing n q with
  | nil => exact h
  | cons b rest ih =>
    have hb : p.byteAt? n = some b := by
      rw [byteAt?_eq_text, ← Nat.add_zero n, ← List.getElem?_drop, hrest]
      rfl
    have htail : p.text.drop (n + 1) = rest := by
      rw [← List.drop_drop, hrest]
      rfl
    rw [List.length_cons, Nat.add_comm rest.length, ← Nat.add_assoc]
    exact ih (h.look hb) htail

end Found

/-- **The pass over the whole text.** -/
theorem found_ofText (p : Program) : p.Found p.bytes.size (.ofText p.text) := by
  have h := Found.none.lookAll (p := p) (List.drop_zero (l := p.text))
  rwa [Nat.zero_add, length_text] at h

/-- The pass finds the pairs. -/
theorem mem_pairs_ofText : (i, j) ∈ (Pairing.ofText p.text).pairs ↔ p.Pair i j := by
  rw [(found_ofText p).pairs]
  exact ⟨fun h => h.2, fun h => ⟨(Array.getElem?_eq_some_iff.1 h.closes).1, h⟩⟩

theorem closer?_ofText : (Pairing.ofText p.text).closer? i = some j ↔ p.Pair i j := by
  rw [← mem_pairs_ofText]
  constructor
  · exact Pairing.mem_of_closer?
  · intro h
    obtain ⟨k, hk⟩ := Pairing.exists_closer? h
    have hpair := mem_pairs_ofText.1 (Pairing.mem_of_closer? hk)
    rwa [(mem_pairs_ofText.1 h).closer_unique hpair]

theorem opener?_ofText : (Pairing.ofText p.text).opener? j = some i ↔ p.Pair i j := by
  rw [← mem_pairs_ofText]
  constructor
  · exact Pairing.mem_of_opener?
  · intro h
    obtain ⟨k, hk⟩ := Pairing.exists_opener? h
    have hpair := mem_pairs_ofText.1 (Pairing.mem_of_opener? hk)
    rwa [(mem_pairs_ofText.1 h).opener_unique hpair]

/-- The opens that still wait at the end are those without a pair. -/
theorem mem_waiting_ofText (hi : p.byteAt? i = some openByte) :
    i ∈ (Pairing.ofText p.text).waiting ↔ ¬∃ j, p.Pair i j := by
  have hlt : i < p.bytes.size := (Array.getElem?_eq_some_iff.1 hi).1
  rw [(found_ofText p).waiting.mem_iff]
  have hnone : (¬∃ j, p.Pair i j) ↔ p.closerAfter? i = none := by
    rw [Option.eq_none_iff_forall_ne_some]
    simp only [ne_eq, closerAfter?_eq_some_iff hi, not_exists]
  rw [hnone, closerAfter?_eq_none_iff]
  constructor
  · rintro ⟨-, -, hup⟩ k hik
    by_cases hk : k ≤ p.bytes.size
    · exact hup k hik hk
    · -- past the end the depth does not change
      have hend : p.depth k = p.depth p.bytes.size := by
        have hle : p.text.length ≤ k := by
          rw [length_text]
          omega
        rw [depth, depth, ← length_text, List.take_length, List.take_of_length_le hle]
      rw [hend]
      exact hup p.bytes.size hlt (Nat.le_refl _)
  · intro hup
    exact ⟨hlt, hi, fun k hik _ => hup k hik⟩

theorem mem_leftOver_ofText (hj : p.byteAt? j = some closeByte) :
    j ∈ (Pairing.ofText p.text).leftOver ↔ ¬∃ i, p.Pair i j := by
  rw [(found_ofText p).leftOver, not_exists]
  exact ⟨fun h => h.2.alone, fun h => ⟨(Array.getElem?_eq_some_iff.1 hj).1, hj, h⟩⟩

/-- **A text is well bracketed** if each of its brackets has a pair. -/
theorem wellBracketed_text_iff :
    WellBracketed p.text ↔
      (∀ i, p.byteAt? i = some openByte → ∃ j, p.Pair i j) ∧
      (∀ j, p.byteAt? j = some closeByte → ∃ i, p.Pair i j) := by
  refine ⟨fun h => ⟨fun _ => exists_pair_of_open h, fun _ => exists_pair_of_close h⟩, ?_⟩
  rintro ⟨hopen, hclose⟩
  -- no close takes the text below where it begins, since the open of its pair stands there
  have hup : ∀ n, 0 ≤ p.depth n := by
    intro n
    induction n using Nat.strong_induction_on with
    | _ n ih =>
      cases n with
      | zero => exact Int.le_refl 0
      | succ n =>
        have hn := ih n (Nat.lt_succ_self n)
        by_cases ho : p.byteAt? n = some openByte
        · have := depth_succ_of_open ho
          omega
        by_cases hc : p.byteAt? n = some closeByte
        · obtain ⟨i, hpair⟩ := hclose n hc
          have := ih i (Nat.lt_succ_of_lt hpair.lt)
          have := depth_succ_of_open hpair.opens
          have := hpair.level
          have := depth_succ_of_close hc
          omega
        · rw [depth_succ_of_ne ho hc]
          exact hn
  -- no open waits at the end, so the text is as low there as it has ever been
  have hend : p.depth p.bytes.size ≤ p.depth 0 := by
    have hwaiting := (found_ofText p).waiting
    cases hstack : (Pairing.ofText p.text).waiting with
    | nil =>
      rw [hstack] at hwaiting
      cases hwaiting with
      | nil hlow => exact hlow 0 (Nat.zero_le _)
    | cons top rest =>
      have htop : top ∈ (Pairing.ofText p.text).waiting := hstack ▸ List.mem_cons_self
      have hbyte := (hwaiting.mem_iff.1 htop).2.1
      exact absurd (hopen top hbyte) ((mem_waiting_ofText hbyte).1 htop)
  have hzero : p.depth 0 = 0 := rfl
  have hlast : p.depth p.bytes.size = rise openByte closeByte p.text := by
    rw [depth, ← length_text, List.take_length]
  rw [wellBracketed_iff]
  refine ⟨?_, ?_⟩
  · have := hup p.bytes.size
    omega
  · intro n
    have := hup n
    unfold depth at this
    omega

/-- **One pass with a stack agrees with the scans**, in every text.

A seek from behind an open succeeds just if the pass pairs this open, and lands behind the close
that the pass gave it; it errs just if the open still waits when the pass is over. A seek from
behind a close succeeds just if the pass pairs this close, and lands behind the open that the pass
gave it; it errs just if the pass found no open waiting for it.

So the seeks from all brackets succeed just if the whole text is well bracketed. -/
theorem seeks_agree_with_pairing (p : Program) :
    let pass := Pairing.ofText p.text
    (∀ i, p.byteAt? i = some openByte →
      (∀ past, p.seekForward (i + 1) = .ok past ↔
        ∃ j, pass.closer? i = some j ∧ past = j + 1) ∧
      (p.seekForward (i + 1) = .error (.unmatched .opening) ↔ i ∈ pass.waiting)) ∧
    (∀ j, p.byteAt? j = some closeByte →
      (∀ past, p.seekBackward (j + 1) = .ok past ↔
        ∃ i, pass.opener? j = some i ∧ past = i + 1) ∧
      (p.seekBackward (j + 1) = .error (.unmatched .closing) ↔ j ∈ pass.leftOver)) ∧
    ((∀ i, p.byteAt? i = some openByte → ∃ past, p.seekForward (i + 1) = .ok past) ∧
      (∀ j, p.byteAt? j = some closeByte → ∃ past, p.seekBackward (j + 1) = .ok past) ↔
        WellBracketed p.text) := by
  have hforward : ∀ i past, p.seekForward (i + 1) = .ok past ↔
      ∃ j, p.Pair i j ∧ past = j + 1 := by
    intro i past
    constructor
    · intro h
      obtain ⟨j, hpast, hpair⟩ := exists_pair_of_seekForward h
      exact ⟨j, hpair, hpast⟩
    · rintro ⟨j, hpair, rfl⟩
      exact seekForward_eq_ok_iff.2 hpair
  have hbackward : ∀ j past, p.seekBackward (j + 1) = .ok past ↔
      ∃ i, p.Pair i j ∧ past = i + 1 := by
    intro j past
    constructor
    · intro h
      obtain ⟨i, hpast, hpair⟩ := exists_pair_of_seekBackward h
      exact ⟨i, hpair, hpast⟩
    · rintro ⟨i, hpair, rfl⟩
      exact seekBackward_eq_ok_iff.2 hpair
  refine ⟨?_, ?_, ?_⟩
  · intro i hi
    simp only [closer?_ofText]
    refine ⟨hforward i, ?_⟩
    rw [seekForward_eq_error_iff hi, mem_waiting_ofText hi]
    simp only [pair_iff_partners]
  · intro j hj
    simp only [opener?_ofText]
    refine ⟨hbackward j, ?_⟩
    rw [seekBackward_eq_error_iff hj, mem_leftOver_ofText hj]
    simp only [pair_iff_partners]
  · rw [wellBracketed_text_iff]
    refine and_congr ?_ ?_
    · refine forall_congr' fun i => imp_congr_right fun _ => ?_
      simp only [hforward]
      exact ⟨fun ⟨_, j, hpair, _⟩ => ⟨j, hpair⟩, fun ⟨j, hpair⟩ => ⟨j + 1, j, hpair, rfl⟩⟩
    · refine forall_congr' fun j => imp_congr_right fun _ => ?_
      simp only [hbackward]
      exact ⟨fun ⟨_, i, hpair, _⟩ => ⟨i, hpair⟩, fun ⟨i, hpair⟩ => ⟨i + 1, i, hpair, rfl⟩⟩

/-- Two loops, one in the other, between closes without an open and an open without a close. -/
theorem seeks_agree_with_pairing_of_unbalanced :
    let p : Program := .ofString "][[+]-]]["
    p.seekForward 2 = .ok 7 ∧ p.seekBackward 7 = .ok 2 ∧
    p.seekBackward 8 = .error (.unmatched .closing) ∧
    p.seekForward 9 = .error (.unmatched .opening) ∧ ¬WellBracketed p.text := by
  intro p
  obtain ⟨hopens, hcloses, hall⟩ := seeks_agree_with_pairing p
  have hpass : Pairing.ofText p.text = ⟨[8], [(1, 6), (2, 4)], [7, 0]⟩ := by decide +kernel
  rw [hpass] at hopens hcloses
  have houter := ((hopens 1 (by cbv)).1 7).2 ⟨6, rfl, rfl⟩
  have hback := ((hcloses 6 (by cbv)).1 2).2 ⟨1, rfl, rfl⟩
  have hclose := (hcloses 7 (by cbv)).2.2 (by decide)
  have hopen := (hopens 8 (by cbv)).2.2 (by decide)
  refine ⟨houter, hback, hclose, hopen, ?_⟩
  intro hwell
  obtain ⟨past, hpast⟩ := (hall.2 hwell).1 8 (by cbv)
  rw [hopen] at hpast
  cases hpast

end Program

end Brainfuck
