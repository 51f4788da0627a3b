import Brainfuck.Proofs.Checked
import Brainfuck.Proofs.Loops

/-!
# Partners

A bracket and its partner have well-bracketed text between them, and nothing else makes two
brackets partners. Each scan finds the partner of its bracket, in any text, and ends without one
only if there is none. So the two scans undo each other, and the pairs that they find never cross.

* `wellBracketed_iff`: the grammar derives the texts that come back to the depth where they began,
  and never go below it.
* `Program.pair_iff_partners`: on one level with nothing below in between, or with well-bracketed
  text in between, is the same of an open and a close.
* `Program.roundsRight_eq`, `Program.roundsLeft_eq`: the loops of the scans end, after no more
  rounds than there are bytes to look at and one.
* `Program.seeks_find_partners`: the scans find the partners.
* `Program.seeks_undo_each_other`: they undo each other, and their pairs are nested or apart.
-/

namespace Brainfuck

theorem StaysUp.of_append {deeper back : UInt8} {depth : Nat} {s t : List UInt8}
    (h : StaysUp deeper back depth (s ++ t)) (hs : rise deeper back s = 0) :
    StaysUp deeper back depth t := by
  intro n
  have hn := h (s.length + n)
  rw [List.take_length_add_append, rise_append, hs] at hn
  omega

/-- Text that comes back to where it began, and never goes below, is well bracketed. -/
theorem wellBracketed_of_staysUp {text : List UInt8} (hlevel : rise openByte closeByte text = 0)
    (hup : StaysUp openByte closeByte 0 text) : WellBracketed text := by
  induction hn : text.length using Nat.strong_induction_on generalizing text with
  | _ n ih =>
    cases text with
    | nil => exact .nil
    | cons b rest =>
      have hlength : rest.length + 1 = n := hn
      by_cases ho : b = openByte
      · subst ho
        rw [rise_cons_deeper openByte_ne_closeByte] at hlevel
        cases hk : partner? openByte closeByte 0 rest with
        | none =>
          -- the rest ends lower than it begins, so its scan cannot go off it
          have hrest := (partner?_eq_none_iff openByte_ne_closeByte).1 hk rest.length
          rw [List.take_length] at hrest
          omega
        | some k =>
          obtain ⟨hclose, hbody, hbodyup⟩ := (partner?_eq_some_iff openByte_ne_closeByte).1 hk
          obtain ⟨hlt, hbyte⟩ := List.getElem?_eq_some_iff.1 hclose
          -- the body of the loop, its close, and what stands behind it
          have hsplit : rest = rest.take k ++ closeByte :: rest.drop (k + 1) := by
            rw [← hbyte, ← List.drop_eq_getElem_cons hlt, List.take_append_drop]
          have hrest : rise openByte closeByte rest =
              rise openByte closeByte (rest.take k) +
                (rise openByte closeByte (rest.drop (k + 1)) - 1) := by
            rw [← rise_cons_back openByte_ne_closeByte, ← rise_append, ← hsplit]
          have hloop : rise openByte closeByte (openByte :: rest.take k ++ [closeByte]) = 0 := by
            have hone : rise openByte closeByte [closeByte] = -1 := rfl
            rw [List.cons_append, rise_cons_deeper openByte_ne_closeByte, rise_append, hone]
            omega
          have htailup : StaysUp openByte closeByte 0 (rest.drop (k + 1)) := by
            refine StaysUp.of_append (s := openByte :: rest.take k ++ [closeByte]) ?_ hloop
            rw [List.append_assoc, List.singleton_append, List.cons_append, ← hsplit]
            exact hup
          rw [hsplit]
          refine .loop (ih (rest.take k).length ?_ (by omega) hbodyup rfl)
            (ih (rest.drop (k + 1)).length ?_ (by omega) htailup rfl)
          · rw [List.length_take]
            omega
          · rw [List.length_drop]
            omega
      by_cases hc : b = closeByte
      · subst hc
        exact absurd hup (not_staysUp_cons_back_zero openByte_ne_closeByte)
      · rw [rise_cons_plain ho hc] at hlevel
        rw [staysUp_cons_plain ho hc] at hup
        exact .plain ho hc (ih rest.length (by omega) hlevel hup rfl)

/-- **Well-bracketed text** comes back to the depth where it began, and never goes below it. -/
theorem wellBracketed_iff {text : List UInt8} :
    WellBracketed text ↔
      rise openByte closeByte text = 0 ∧ StaysUp openByte closeByte 0 text :=
  ⟨fun h => ⟨rise_of_wellBracketed h, staysUp_of_wellBracketed h⟩,
    fun h => wellBracketed_of_staysUp h.1 h.2⟩

/-- A scan to the right stops at the first close with well-bracketed text before it. -/
theorem partner?_eq_some_iff_wellBracketed {text : List UInt8} {k : Nat} :
    partner? openByte closeByte 0 text = some k ↔
      text[k]? = some closeByte ∧ WellBracketed (text.take k) := by
  rw [partner?_eq_some_iff openByte_ne_closeByte, wellBracketed_iff]
  have hzero : ((0 : Nat) : Int) + rise openByte closeByte (text.take k) =
      rise openByte closeByte (text.take k) := by omega
  rw [hzero]

namespace Program

variable {p : Program} {i j k l pos depth : Nat}

/-- The text strictly between two positions. -/
def between (p : Program) (i j : Nat) : List UInt8 := (p.text.drop (i + 1)).take (j - (i + 1))

/-- An open and a close behind it, with well-bracketed text between them. -/
structure Partners (p : Program) (i j : Nat) : Prop where
  opens : p.byteAt? i = some openByte
  closes : p.byteAt? j = some closeByte
  lt : i < j
  between : WellBracketed (p.between i j)

/-- **The pairs of the scans** are the partners of the grammar. -/
theorem pair_iff_partners : p.Pair i j ↔ p.Partners i j := by
  -- both say of an open at `i` that the scan of the text behind it stops at `j`
  have hscan : p.byteAt? i = some openByte → (p.Pair i j ↔
      ∃ k, partner? openByte closeByte 0 (p.text.drop (i + 1)) = some k ∧ k + (i + 1) = j) := by
    intro hi
    rw [← closerAfter?_eq_some_iff hi, closerAfter?_eq_partner?, Option.map_eq_some_iff]
  constructor
  · intro h
    obtain ⟨k, hk, rfl⟩ := (hscan h.opens).1 h
    refine ⟨h.opens, h.closes, h.lt, ?_⟩
    rw [between, Nat.add_sub_cancel]
    exact (partner?_eq_some_iff_wellBracketed.1 hk).2
  · intro h
    have hlt := h.lt
    refine (hscan h.opens).2 ⟨j - (i + 1), ?_, by omega⟩
    refine partner?_eq_some_iff_wellBracketed.2 ⟨?_, h.between⟩
    rw [List.getElem?_drop, Nat.add_sub_cancel' hlt, ← byteAt?_eq_text]
    exact h.closes

theorem seekForward_of_open (hi : p.byteAt? i = some openByte) :
    p.seekForward (i + 1) = (landing .opening (p.closerAfter? i)).mapError .unmatched := by
  rw [seekForward, Nat.add_sub_cancel, if_pos ⟨Nat.succ_pos i, hi⟩]
  cases p.closerAfter? i <;> rfl

theorem seekBackward_of_close (hj : p.byteAt? j = some closeByte) :
    p.seekBackward (j + 1) = (landing .closing (p.openerBefore? j)).mapError .unmatched := by
  rw [seekBackward, Nat.add_sub_cancel, if_pos ⟨Nat.succ_pos j, hj⟩]
  cases p.openerBefore? j <;> rfl

/-- Where the loop of a scan stands between two rounds: the byte that it has come to, and the
brackets that it still has to get out of. -/
structure Search where
  pos : Nat
  depth : Nat

/-- The depth behind one more byte. -/
def turn (deeper back b : UInt8) (depth : Nat) : Nat :=
  if b = deeper then depth + 1 else if b = back then depth - 1 else depth

/-- A round of the loop to the right: it goes on from the next byte, or ends. -/
def roundRight (p : Program) (s : Search) : Search ⊕ Except Side Nat :=
  if s.depth = 0 then .inr (.ok (s.pos + 1))
  else
    match p.byteAt? (s.pos + 1) with
    | none => .inr (.error .opening)
    | some b => .inl ⟨s.pos + 1, turn openByte closeByte b s.depth⟩

/-- A round of the loop to the left. -/
def roundLeft (p : Program) (s : Search) : Search ⊕ Except Side Nat :=
  if s.depth = 0 then .inr (.ok (s.pos + 1))
  else if s.pos = 0 then .inr (.error .closing)
  else
    match p.byteAt? (s.pos - 1) with
    | none => .inr (.error .closing)
    | some b => .inl ⟨s.pos - 1, turn closeByte openByte b s.depth⟩

/-- What a loop answers, if `n` rounds are enough for it. -/
def rounds (round : Search → Search ⊕ Except Side Nat) : Nat → Search → Option (Except Side Nat)
  | 0, _ => none
  | n + 1, s =>
    match round s with
    | .inl next => rounds round n next
    | .inr answer => some answer

/-- **The loop to the right ends** with what the scan finds, if it is granted a round for each byte
that it may have to look at and one. -/
theorem roundsRight_eq (hpos : pos < p.bytes.size) :
    rounds p.roundRight (p.bytes.size - pos) ⟨pos, depth + 1⟩ = some (landing .opening
      ((partner? openByte closeByte depth (p.text.drop (pos + 1))).map (· + (pos + 1)))) := by
  induction hleft : p.bytes.size - (pos + 1) generalizing pos depth with
  | zero =>
    have hend : p.bytes.size ≤ pos + 1 := by omega
    have hnone : p.byteAt? (pos + 1) = none := (byteAt?_eq_none_iff p _).2 hend
    rw [show p.bytes.size - pos = 0 + 1 by omega, List.drop_eq_nil_of_le (by simpa using hend)]
    simp [rounds, roundRight, hnone, partner?, landing]
  | succ left ih =>
    have hnext : pos + 1 < p.bytes.size := by omega
    have hbyte : p.byteAt? (pos + 1) = some p.bytes[pos + 1] := byteAt?_of_lt p hnext
    -- what is found behind the next position is found one further on
    have hrest : (· + (pos + 1)) ∘ (· + 1) = (· + (pos + 1 + 1)) := by
      funext k
      simp only [Function.comp_apply]
      omega
    have hround : rounds p.roundRight (p.bytes.size - pos) ⟨pos, depth + 1⟩ =
        rounds p.roundRight (p.bytes.size - (pos + 1))
          ⟨pos + 1, turn openByte closeByte p.bytes[pos + 1] (depth + 1)⟩ := by
      rw [show p.bytes.size - pos = p.bytes.size - (pos + 1) + 1 by omega]
      simp [rounds, roundRight, hbyte]
    rw [hround, drop_text p hnext]
    by_cases ho : p.bytes[pos + 1] = openByte
    · rw [ho, turn, if_pos rfl, ih hnext (by omega), partner?_cons_deeper, Option.map_map, hrest]
    by_cases hc : p.bytes[pos + 1] = closeByte
    · rw [hc, turn, if_neg openByte_ne_closeByte.symm, if_pos rfl, Nat.add_sub_cancel]
      cases depth with
      | zero =>
        -- the partner: the loop ends in its next round
        rw [partner?_cons_back_zero openByte_ne_closeByte,
          show p.bytes.size - (pos + 1) = left + 1 by omega]
        simp [rounds, roundRight, landing]
      | succ depth =>
        rw [ih hnext (by omega), partner?_cons_back_succ openByte_ne_closeByte, Option.map_map,
          hrest]
    · rw [turn, if_neg ho, if_neg hc, ih hnext (by omega), partner?_cons_plain ho hc,
        Option.map_map, hrest]

/-- **The loop to the left ends** with what the scan finds. -/
theorem roundsLeft_eq (hpos : pos ≤ p.bytes.size) :
    rounds p.roundLeft (pos + 1) ⟨pos, depth + 1⟩ = some (landing .closing
      ((partner? closeByte openByte depth (p.text.take pos).reverse).map (pos - 1 - ·))) := by
  induction pos generalizing depth with
  | zero => simp [rounds, roundLeft, partner?, landing]
  | succ pos ih =>
    have hlt : pos < p.bytes.size := by omega
    have hbyte : p.byteAt? pos = some p.bytes[pos] := byteAt?_of_lt p hlt
    have hrest : (pos - ·) ∘ (· + 1) = (pos - 1 - ·) := by
      funext k
      simp only [Function.comp_apply]
      omega
    have hround : rounds p.roundLeft (pos + 1 + 1) ⟨pos + 1, depth + 1⟩ =
        rounds p.roundLeft (pos + 1)
          ⟨pos, turn closeByte openByte p.bytes[pos] (depth + 1)⟩ := by
      rw [rounds]
      simp [roundLeft, hbyte]
    rw [hround, take_text_succ p hlt, List.reverse_append, List.reverse_singleton,
      List.singleton_append, Nat.add_sub_cancel]
    by_cases hc : p.bytes[pos] = closeByte
    · rw [hc, turn, if_pos rfl, ih (by omega), partner?_cons_deeper, Option.map_map, hrest]
    by_cases ho : p.bytes[pos] = openByte
    · rw [ho, turn, if_neg openByte_ne_closeByte, if_pos rfl, Nat.add_sub_cancel]
      cases depth with
      | zero =>
        rw [partner?_cons_back_zero openByte_ne_closeByte.symm]
        simp [rounds, roundLeft, landing]
      | succ depth =>
        rw [ih (by omega), partner?_cons_back_succ openByte_ne_closeByte.symm, Option.map_map,
          hrest]
    · rw [turn, if_neg hc, if_neg ho, ih (by omega), partner?_cons_plain hc ho, Option.map_map,
        hrest]

/-- A seek that answers starts at its bracket and lands behind the partner. -/
theorem exists_pair_of_seekForward {past : Nat} (h : p.seekForward (i + 1) = .ok past) :
    ∃ j, past = j + 1 ∧ p.Pair i j := by
  unfold seekForward at h
  rw [Nat.add_sub_cancel] at h
  split at h
  · rename_i hopen
    split at h
    · rename_i j hj
      cases h
      exact ⟨j, rfl, (closerAfter?_eq_some_iff hopen.2).1 hj⟩
    · cases h
  · cases h

theorem exists_pair_of_seekBackward {past : Nat} (h : p.seekBackward (j + 1) = .ok past) :
    ∃ i, past = i + 1 ∧ p.Pair i j := by
  unfold seekBackward at h
  rw [Nat.add_sub_cancel] at h
  split at h
  · rename_i hclose
    split at h
    · rename_i i hi
      cases h
      exact ⟨i, rfl, (openerBefore?_eq_some_iff hclose.2).1 hi⟩
    · cases h
  · cases h

theorem seekBackward_eq_ok_iff : p.seekBackward (j + 1) = .ok (i + 1) ↔ p.Pair i j := by
  constructor
  · intro h
    obtain ⟨k, hk, hpair⟩ := exists_pair_of_seekBackward h
    cases hk
    exact hpair
  · intro h
    rw [seekBackward_of_close h.closes, (openerBefore?_eq_some_iff h.closes).2 h]
    rfl

/-- A seek that errs has no partner to find. -/
theorem seekForward_eq_error_iff (hi : p.byteAt? i = some openByte) :
    p.seekForward (i + 1) = .error (.unmatched .opening) ↔ ¬∃ j, p.Partners i j := by
  rw [seekForward_of_open hi]
  constructor
  · rintro h ⟨j, hj⟩
    rw [(closerAfter?_eq_some_iff hi).2 (pair_iff_partners.2 hj)] at h
    cases h
  · intro h
    cases hj : p.closerAfter? i with
    | none => rfl
    | some j => exact absurd ⟨j, pair_iff_partners.1 ((closerAfter?_eq_some_iff hi).1 hj)⟩ h

theorem seekBackward_eq_error_iff (hj : p.byteAt? j = some closeByte) :
    p.seekBackward (j + 1) = .error (.unmatched .closing) ↔ ¬∃ i, p.Partners i j := by
  rw [seekBackward_of_close hj]
  constructor
  · rintro h ⟨i, hi⟩
    rw [(openerBefore?_eq_some_iff hj).2 (pair_iff_partners.2 hi)] at h
    cases h
  · intro h
    cases hi : p.openerBefore? j with
    | none => rfl
    | some i => exact absurd ⟨i, pair_iff_partners.1 ((openerBefore?_eq_some_iff hj).1 hi)⟩ h

/-- **The scans find exactly the grammatical partner**, in every text.

A seek from behind an open at `i` lands behind `j` just if `j` is a close behind `i` with
well-bracketed text in between, of which there is one at most; and it errs just if there is none.
Its loop ends, after no more rounds than there are bytes from the open on, with the answer of the
seek. The same holds from the other side of a seek from behind a close. -/
theorem seeks_find_partners (p : Program) :
    (∀ i, p.byteAt? i = some openByte →
      (∀ j, p.seekForward (i + 1) = .ok (j + 1) ↔
        i < j ∧ p.byteAt? j = some closeByte ∧ WellBracketed (p.between i j)) ∧
      (∀ j l, p.Partners i j → p.Partners i l → j = l) ∧
      (p.seekForward (i + 1) = .error (.unmatched .opening) ↔
        ¬∃ j, i < j ∧ p.byteAt? j = some closeByte ∧ WellBracketed (p.between i j)) ∧
      ∃ answer, rounds p.roundRight (p.bytes.size - i) ⟨i, 1⟩ = some answer ∧
        p.seekForward (i + 1) = answer.mapError .unmatched) ∧
    (∀ j, p.byteAt? j = some closeByte →
      (∀ i, p.seekBackward (j + 1) = .ok (i + 1) ↔
        i < j ∧ p.byteAt? i = some openByte ∧ WellBracketed (p.between i j)) ∧
      (∀ i k, p.Partners i j → p.Partners k j → i = k) ∧
      (p.seekBackward (j + 1) = .error (.unmatched .closing) ↔
        ¬∃ i, i < j ∧ p.byteAt? i = some openByte ∧ WellBracketed (p.between i j)) ∧
      ∃ answer, rounds p.roundLeft (j + 1) ⟨j, 1⟩ = some answer ∧
        p.seekBackward (j + 1) = answer.mapError .unmatched) := by
  constructor
  · intro i hi
    have hpartners : ∀ j, p.Partners i j ↔
        i < j ∧ p.byteAt? j = some closeByte ∧ WellBracketed (p.between i j) := fun j =>
      ⟨fun h => ⟨h.lt, h.closes, h.between⟩, fun h => ⟨hi, h.2.1, h.1, h.2.2⟩⟩
    simp only [← hpartners]
    refine ⟨fun j => seekForward_eq_ok_iff.trans pair_iff_partners, ?_, seekForward_eq_error_iff hi,
      landing .opening (p.closerAfter? i), ?_, seekForward_of_open hi⟩
    · intro j l hj hl
      exact (pair_iff_partners.2 hj).closer_unique (pair_iff_partners.2 hl)
    · rw [closerAfter?_eq_partner?]
      exact roundsRight_eq (Array.getElem?_eq_some_iff.1 hi).1
  · intro j hj
    have hle : j ≤ p.bytes.size := Nat.le_of_lt (Array.getElem?_eq_some_iff.1 hj).1
    have hpartners : ∀ i, p.Partners i j ↔
        i < j ∧ p.byteAt? i = some openByte ∧ WellBracketed (p.between i j) := fun i =>
      ⟨fun h => ⟨h.lt, h.opens, h.between⟩, fun h => ⟨h.2.1, hj, h.1, h.2.2⟩⟩
    simp only [← hpartners]
    refine ⟨fun i => seekBackward_eq_ok_iff.trans pair_iff_partners, ?_,
      seekBackward_eq_error_iff hj, landing .closing (p.openerBefore? j), ?_,
      seekBackward_of_close hj⟩
    · intro i k hi hk
      exact (pair_iff_partners.2 hi).opener_unique (pair_iff_partners.2 hk)
    · rw [openerBefore?_eq_partner? p hle]
      exact roundsLeft_eq hle

/-- An inner pair with a comment in it is skipped on the way to the partner, and the brackets at the
two ends have none. -/
theorem seeks_find_partners_of_unbalanced :
    let p : Program := .ofString "][-[ x]]["
    p.seekForward 2 = .ok 8 ∧ WellBracketed (p.between 1 7) ∧
    p.seekBackward 1 = .error (.unmatched .closing) ∧ (¬∃ i, p.Partners i 0) ∧
    p.seekForward 9 = .error (.unmatched .opening) ∧ ¬∃ j, p.Partners 8 j := by
  intro p
  obtain ⟨hforward, hbackward⟩ := seeks_find_partners p
  have hland : p.seekForward 2 = .ok 8 := by cbv
  have hleft : p.seekBackward 1 = .error (.unmatched .closing) := by cbv
  have hright : p.seekForward 9 = .error (.unmatched .opening) := by cbv
  have hopen : p.byteAt? 1 = some openByte := by cbv
  have hlast : p.byteAt? 8 = some openByte := by cbv
  have hfirst : p.byteAt? 0 = some closeByte := by cbv
  obtain ⟨-, -, hbetween⟩ := ((hforward 1 hopen).1 7).1 hland
  have hnone := (hbackward 0 hfirst).2.2.1.1 hleft
  have hnone' := (hforward 8 hlast).2.2.1.1 hright
  refine ⟨hland, hbetween, hleft, ?_, hright, ?_⟩
  · rintro ⟨i, h⟩
    exact hnone ⟨i, h.lt, h.opens, h.between⟩
  · rintro ⟨j, h⟩
    exact hnone' ⟨j, h.lt, h.closes, h.between⟩

/-- **Pairs are nested or apart**, or the same. -/
theorem Pair.nested_or_apart (h : p.Pair i j) (h' : p.Pair k l) :
    (i = k ∧ j = l) ∨ j < k ∨ l < i ∨ (i < k ∧ l < j) ∨ (k < i ∧ j < l) := by
  have hij := h.lt
  have hkl := h'.lt
  have hik := h.opener_ne_closer h'
  have hki := h'.opener_ne_closer h
  rcases Nat.lt_trichotomy i k with hlt | rfl | hlt
  · -- the second begins behind the open of the first: inside, or behind its close
    by_cases hkj : k < j
    · have hl := h.closer_lt h' hlt hkj
      omega
    · omega
  · exact .inl ⟨rfl, h.closer_unique h'⟩
  · by_cases hil : i < l
    · have hj := h'.closer_lt h hlt hil
      omega
    · omega

end Program

namespace Machine

variable {m : Machine} {i j : Nat}

/-- **A loop is skipped** from its open on a zero cell, to behind the close of its pair. -/
theorem skips_iff (hc : m.isCancelled = false) (hb : m.program.byteAt? m.ip = some openByte)
    (hz : m.tape.read = 0) :
    m.step = (.ok .next, { m with ip := j + 1 }) ↔ m.program.Pair m.ip j := by
  rw [step_of_byte hc hb, ← Program.closerAfter?_eq_some_iff hb,
    show Opcode.ofByte openByte = .openLoop from rfl, execute, if_pos hz]
  cases hj : m.program.closerAfter? m.ip with
  | none => simp [Except.map]
  | some k => simp [Except.map]

/-- **A loop is repeated** from its close on a cell that is not zero, from behind the open of its
pair. -/
theorem repeats_iff (hc : m.isCancelled = false) (hb : m.program.byteAt? m.ip = some closeByte)
    (hz : m.tape.read ≠ 0) :
    m.step = (.ok .next, { m with ip := i + 1 }) ↔ m.program.Pair i m.ip := by
  rw [step_of_byte hc hb, ← Program.openerBefore?_eq_some_iff hb,
    show Opcode.ofByte closeByte = .closeLoop from rfl, execute, if_neg hz]
  cases hi : m.program.openerBefore? m.ip with
  | none => simp [Except.map]
  | some k => simp [Except.map]

end Machine

namespace Program

/-- **The two scans undo each other, and their pairs never cross**, in every text.

A seek from behind an open lands behind a close just if the seek from behind that close lands
behind that open. So an open has a partner just if some close has it for a partner, and the other
way round; no two opens share a close, and no two closes share an open; and any two pairs are the
same, apart, or one inside the other.

So machines agree on the extent of a loop: the one that skips it, at its open on a zero cell, comes
to behind the close from which the other, on a cell that is not zero, goes back to behind that
open. -/
theorem seeks_undo_each_other (p : Program) :
    (∀ i j, (p.byteAt? i = some openByte ∧ p.seekForward (i + 1) = .ok (j + 1)) ↔
      (p.byteAt? j = some closeByte ∧ p.seekBackward (j + 1) = .ok (i + 1))) ∧
    (∀ i, p.byteAt? i = some openByte →
      ((∃ past, p.seekForward (i + 1) = .ok past) ↔
        ∃ j, p.byteAt? j = some closeByte ∧ p.seekBackward (j + 1) = .ok (i + 1))) ∧
    (∀ j, p.byteAt? j = some closeByte →
      ((∃ past, p.seekBackward (j + 1) = .ok past) ↔
        ∃ i, p.byteAt? i = some openByte ∧ p.seekForward (i + 1) = .ok (j + 1))) ∧
    (∀ i k past, p.seekForward (i + 1) = .ok past → p.seekForward (k + 1) = .ok past → i = k) ∧
    (∀ j l past, p.seekBackward (j + 1) = .ok past → p.seekBackward (l + 1) = .ok past → j = l) ∧
    (∀ i j k l, p.seekForward (i + 1) = .ok (j + 1) → p.seekForward (k + 1) = .ok (l + 1) →
      (i = k ∧ j = l) ∨ j < k ∨ l < i ∨ (i < k ∧ l < j) ∨ (k < i ∧ j < l)) ∧
    (∀ m m' : Machine, m.program = p → m'.program = p →
      m.isCancelled = false → p.byteAt? m.ip = some openByte → m.tape.read = 0 →
      m'.isCancelled = false → p.byteAt? m'.ip = some closeByte → m'.tape.read ≠ 0 →
      (m.step = (.ok .next, { m with ip := m'.ip + 1 }) ↔
        m'.step = (.ok .next, { m' with ip := m.ip + 1 }))) := by
  refine ⟨?_, ?_, ?_, ?_, ?_, ?_, ?_⟩
  · intro i j
    rw [seekForward_eq_ok_iff, seekBackward_eq_ok_iff]
    exact ⟨fun h => ⟨h.2.closes, h.2⟩, fun h => ⟨h.2.opens, h.2⟩⟩
  · intro i _
    constructor
    · rintro ⟨past, h⟩
      obtain ⟨j, -, hpair⟩ := exists_pair_of_seekForward h
      exact ⟨j, hpair.closes, seekBackward_eq_ok_iff.2 hpair⟩
    · rintro ⟨j, -, h⟩
      exact ⟨j + 1, seekForward_eq_ok_iff.2 (seekBackward_eq_ok_iff.1 h)⟩
  · intro j _
    constructor
    · rintro ⟨past, h⟩
      obtain ⟨i, -, hpair⟩ := exists_pair_of_seekBackward h
      exact ⟨i, hpair.opens, seekForward_eq_ok_iff.2 hpair⟩
    · rintro ⟨i, -, h⟩
      exact ⟨i + 1, seekBackward_eq_ok_iff.2 (seekForward_eq_ok_iff.1 h)⟩
  · intro i k past h h'
    obtain ⟨j, rfl, hpair⟩ := exists_pair_of_seekForward h
    exact hpair.opener_unique (seekForward_eq_ok_iff.1 h')
  · intro j l past h h'
    obtain ⟨i, rfl, hpair⟩ := exists_pair_of_seekBackward h
    exact hpair.closer_unique (seekBackward_eq_ok_iff.1 h')
  · intro i j k l h h'
    exact (seekForward_eq_ok_iff.1 h).nested_or_apart (seekForward_eq_ok_iff.1 h')
  · rintro m m' rfl hprogram hc hopen hz hc' hclose hz'
    rw [← hprogram] at hclose
    rw [Machine.skips_iff hc hopen hz, Machine.repeats_iff hc' hclose hz', hprogram]

/-- Between brackets without a partner, the outer loop is skipped from its open to where it is
repeated from, over two loops inside it. -/
theorem seeks_undo_each_other_of_unbalanced :
    let p : Program := .ofString "][[-][+]]["
    let console := Console.make (.ofBytes []) .accepting none
    let m := { Machine.start p (.blank 1) console true with ip := 1 }
    let m' := { Machine.start p (Tape.blank 1).increment console true with ip := 8 }
    p.seekForward 2 = .ok 9 ∧ p.seekBackward 9 = .ok 2 ∧
    p.seekBackward 1 = .error (.unmatched .closing) ∧
    (¬∃ i, p.byteAt? i = some openByte ∧ p.seekForward (i + 1) = .ok 1) ∧
    m.step = (.ok .next, { m with ip := 9 }) ∧ m'.step = (.ok .next, { m' with ip := 2 }) := by
  intro p console m m'
  obtain ⟨hinverse, -, hpartner, -, -, -, hextent⟩ := seeks_undo_each_other p
  have hforward : p.seekForward 2 = .ok 9 := by cbv
  have hopen : p.byteAt? 1 = some openByte := by cbv
  have hclose : p.byteAt? 8 = some closeByte := by cbv
  have hfirst : p.byteAt? 0 = some closeByte := by cbv
  have herror : p.seekBackward 1 = .error (.unmatched .closing) := by cbv
  have hskip : m.step = (.ok .next, { m with ip := 9 }) :=
    (Machine.skips_iff rfl hopen (by cbv)).2 (seekForward_eq_ok_iff.1 hforward)
  have hrepeat : m'.step = (.ok .next, { m' with ip := 2 }) :=
    (hextent m m' rfl rfl rfl hopen (by cbv) rfl hclose (by cbv)).1 hskip
  refine ⟨hforward, ((hinverse 1 8).1 ⟨hopen, hforward⟩).2, herror, ?_, hskip, hrepeat⟩
  intro h
  obtain ⟨past, hpast⟩ := (hpartner 0 hfirst).2 h
  rw [herror] at hpast
  cases hpast

end Program

end Brainfuck
