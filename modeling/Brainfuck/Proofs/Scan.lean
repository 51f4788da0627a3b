import Brainfuck.Program.Brackets
import Brainfuck.Program.Grammar

/-!
# Scans over lists

The two scans for the partner of a bracket count down through an array. Here both are one
function on a list of bytes: a scan to the right reads the text behind its bracket, a scan to
the left reads the text before it from its end, with the two brackets exchanged.

* `closerAfter?_eq_partner?`, `openerBefore?_eq_partner?`: the scans are that function.
* `partner?_append`, `partner?_append_reverse`: a scan passes over well-bracketed text.
* `partner?_append_of_some`, `partner?_append_of_none`: when a scan does not see what follows.
* `partner?_filter`, `partner?_map`: a scan over fewer comments, or over other bytes that are no
  brackets, stops at the same bracket.
-/

namespace Brainfuck

/-- The index of the first `back` at depth zero. Each `deeper` adds one to the depth, and each
`back` takes one from it. -/
def partner? (deeper back : UInt8) : Nat → List UInt8 → Option Nat
  | _, [] => none
  | depth, b :: rest =>
    if b = deeper then (partner? deeper back (depth + 1) rest).map (· + 1)
    else if b = back then
      match depth with
      | 0 => some 0
      | depth + 1 => (partner? deeper back depth rest).map (· + 1)
    else (partner? deeper back depth rest).map (· + 1)

variable {deeper back : UInt8}

theorem partner?_cons_deeper (depth : Nat) (rest : List UInt8) :
    partner? deeper back depth (deeper :: rest) =
      (partner? deeper back (depth + 1) rest).map (· + 1) := by
  simp [partner?]

theorem partner?_cons_back_zero (h : deeper ≠ back) (rest : List UInt8) :
    partner? deeper back 0 (back :: rest) = some 0 := by
  simp [partner?, h.symm]

theorem partner?_cons_back_succ (h : deeper ≠ back) (depth : Nat) (rest : List UInt8) :
    partner? deeper back (depth + 1) (back :: rest) =
      (partner? deeper back depth rest).map (· + 1) := by
  simp [partner?, h.symm]

theorem partner?_cons_plain {b : UInt8} (hd : b ≠ deeper) (hb : b ≠ back) (depth : Nat)
    (rest : List UInt8) :
    partner? deeper back depth (b :: rest) = (partner? deeper back depth rest).map (· + 1) := by
  simp [partner?, hd, hb]

/-- A scan stops at a bracket of the other kind, inside the text. -/
theorem getElem?_of_partner? {depth k : Nat} {text : List UInt8}
    (h : partner? deeper back depth text = some k) : text[k]? = some back := by
  induction text generalizing depth k with
  | nil => simp [partner?] at h
  | cons b rest ih =>
    -- every case but the last stop goes on with the rest of the text
    have next : ∀ d, (partner? deeper back d rest).map (· + 1) = some k →
        (b :: rest)[k]? = some back := by
      intro d hk
      obtain ⟨j, hj, rfl⟩ := Option.map_eq_some_iff.1 hk
      simpa using ih hj
    simp only [partner?] at h
    split at h
    · exact next _ h
    · split at h
      · split at h
        · rename_i hb _
          cases h
          simp [hb]
        · exact next _ h
      · exact next _ h

/-- **A scan commutes with leaving bytes out**, if the brackets are kept: it stops at the
same bracket, whose index is the number of bytes kept before it. -/
theorem partner?_filter {keep : UInt8 → Bool} (hd : keep deeper = true) (hb : keep back = true)
    (depth : Nat) (text : List UInt8) :
    partner? deeper back depth (text.filter keep) =
      (partner? deeper back depth text).map fun k => (text.take k).countP keep := by
  induction text generalizing depth with
  | nil => rfl
  | cons b rest ih =>
    -- a byte left out is no bracket, so the scan passes over it
    by_cases hkeep : keep b = true
    · rw [List.filter_cons_of_pos hkeep]
      simp only [partner?, ih]
      split
      · simp [Function.comp_def, hkeep]
      · split
        · split
          · rfl
          · simp [Function.comp_def, hkeep]
        · simp [Function.comp_def, hkeep]
    · have hnd : b ≠ deeper := fun e => hkeep (e ▸ hd)
      have hnb : b ≠ back := fun e => hkeep (e ▸ hb)
      rw [List.filter_cons_of_neg hkeep, partner?_cons_plain hnd hnb, ih]
      simp [Function.comp_def, hkeep]

/-- Bytes that are no brackets may be exchanged for others. -/
theorem partner?_map {g : UInt8 → UInt8} (hd : ∀ b, g b = deeper ↔ b = deeper)
    (hb : ∀ b, g b = back ↔ b = back) (depth : Nat) (text : List UInt8) :
    partner? deeper back depth (text.map g) = partner? deeper back depth text := by
  induction text generalizing depth with
  | nil => rfl
  | cons b rest ih => simp only [List.map_cons, partner?, hd, hb, ih]

/-- A scan that stops does not see what follows. -/
theorem partner?_append_of_some {depth k : Nat} {s : List UInt8}
    (h : partner? deeper back depth s = some k) (t : List UInt8) :
    partner? deeper back depth (s ++ t) = some k := by
  induction s generalizing depth k with
  | nil => simp [partner?] at h
  | cons b s ih =>
    -- what the scan of the rest has found, it finds again
    have next : ∀ d, (partner? deeper back d s).map (· + 1) = some k →
        (partner? deeper back d (s ++ t)).map (· + 1) = some k := by
      intro d hk
      obtain ⟨j, hj, rfl⟩ := Option.map_eq_some_iff.1 hk
      rw [ih hj]
      rfl
    simp only [partner?, List.cons_append] at h ⊢
    split at h
    · rename_i hd
      rw [if_pos hd]
      exact next _ h
    · rename_i hd
      rw [if_neg hd]
      split at h
      · rename_i hb
        rw [if_pos hb]
        cases depth with
        | zero => exact h
        | succ depth => exact next _ h
      · rename_i hb
        rw [if_neg hb]
        exact next _ h

/-- What stops no scan may as well be left out. -/
theorem partner?_append_of_none {t : List UInt8} (h : ∀ depth, partner? deeper back depth t = none)
    (depth : Nat) (s : List UInt8) :
    partner? deeper back depth (s ++ t) = partner? deeper back depth s := by
  induction s generalizing depth with
  | nil => exact h depth
  | cons b s ih => simp only [partner?, List.cons_append, ih]

theorem openByte_ne_closeByte : openByte ≠ closeByte := by decide

/-- **A scan to the right passes over well-bracketed text** at any depth. -/
theorem partner?_append {body : List UInt8} (h : WellBracketed body) (depth : Nat)
    (rest : List UInt8) :
    partner? openByte closeByte depth (body ++ rest) =
      (partner? openByte closeByte depth rest).map (· + body.length) := by
  induction h generalizing depth rest with
  | nil => simp
  | plain ho hc _ ih =>
    rw [List.cons_append, partner?_cons_plain ho hc, ih]
    simp [Function.comp_def, Nat.add_assoc]
  | @loop body tail _ _ ihb iht =>
    rw [List.append_assoc, List.cons_append, List.cons_append, partner?_cons_deeper, ihb,
      partner?_cons_back_succ openByte_ne_closeByte, iht]
    simp only [Option.map_map, Function.comp_def, List.length_append, List.length_cons]
    congr 1
    funext k
    omega

/-- **A scan to the left passes over well-bracketed text** at any depth. -/
theorem partner?_append_reverse {body : List UInt8} (h : WellBracketed body) (depth : Nat)
    (rest : List UInt8) :
    partner? closeByte openByte depth (body.reverse ++ rest) =
      (partner? closeByte openByte depth rest).map (· + body.length) := by
  induction h generalizing depth rest with
  | nil => simp
  | @plain b tail ho hc _ ih =>
    rw [List.reverse_cons, List.append_assoc, ih, List.singleton_append,
      partner?_cons_plain hc ho]
    simp [Function.comp_def, Nat.add_assoc, Nat.add_comm 1]
  | @loop body tail _ _ ihb iht =>
    have hrev : (openByte :: body ++ closeByte :: tail).reverse ++ rest =
        tail.reverse ++ (closeByte :: (body.reverse ++ (openByte :: rest))) := by simp
    rw [hrev, iht, partner?_cons_deeper, ihb,
      partner?_cons_back_succ (Ne.symm openByte_ne_closeByte)]
    simp only [Option.map_map, Function.comp_def, List.length_append, List.length_cons]
    congr 1
    funext k
    omega

namespace Program

/-- The bytes of a program as a list. -/
def text (p : Program) : List UInt8 := p.bytes.toList

theorem byteAt?_eq_text (p : Program) (i : Nat) : p.byteAt? i = p.text[i]? :=
  Array.getElem?_toList.symm

@[simp] theorem length_text (p : Program) : p.text.length = p.bytes.size := Array.length_toList

theorem drop_text (p : Program) {i : Nat} (h : i < p.bytes.size) :
    p.text.drop i = p.bytes[i] :: p.text.drop (i + 1) := by
  rw [List.drop_eq_getElem_cons (by simpa using h)]
  rfl

theorem take_one_drop_text {p : Program} {i : Nat} {b : UInt8} (h : p.byteAt? i = some b) :
    (p.text.drop i).take 1 = [b] := by
  obtain ⟨hlt, rfl⟩ := Array.getElem?_eq_some_iff.1 h
  rw [drop_text p hlt]
  rfl

theorem take_text_succ (p : Program) {i : Nat} (h : i < p.bytes.size) :
    p.text.take (i + 1) = p.text.take i ++ [p.bytes[i]] := by
  rw [← List.take_append_getElem (by simpa using h)]
  rfl

theorem scanRight_eq_partner? (p : Program) (left : Nat) (h : left ≤ p.bytes.size) (depth : Nat) :
    p.scanRight left h depth =
      (partner? openByte closeByte depth (p.text.drop (p.bytes.size - left))).map
        (· + (p.bytes.size - left)) := by
  induction left generalizing depth with
  | zero =>
    rw [Nat.sub_zero, List.drop_eq_nil_of_le (Nat.le_of_eq p.length_text)]
    rfl
  | succ left ih =>
    have hpos : p.bytes.size - (left + 1) < p.bytes.size := by omega
    have hnext : p.bytes.size - (left + 1) + 1 = p.bytes.size - left := by omega
    rw [drop_text p hpos, hnext]
    simp only [scanRight, partner?, ih]
    split
    · simp [Function.comp_def, ← hnext, Nat.add_assoc, Nat.add_comm 1]
    · split
      · split
        · simp
        · simp [Function.comp_def, ← hnext, Nat.add_assoc, Nat.add_comm 1]
      · simp [Function.comp_def, ← hnext, Nat.add_assoc, Nat.add_comm 1]

theorem scanLeft_eq_partner? (p : Program) (left : Nat) (h : left ≤ p.bytes.size) (depth : Nat) :
    p.scanLeft left h depth =
      (partner? closeByte openByte depth (p.text.take left).reverse).map (left - 1 - ·) := by
  induction left generalizing depth with
  | zero => simp [scanLeft, partner?]
  | succ left ih =>
    rw [take_text_succ p h, List.reverse_append, List.reverse_singleton,
      List.singleton_append]
    simp only [scanLeft, partner?, ih]
    -- a step to the left lowers the bound and the index alike
    have hstep : ∀ k, left + 1 - 1 - (k + 1) = left - 1 - k := by
      intro k
      omega
    split
    · simp only [Option.map_map, Function.comp_def, hstep]
    · split
      · split
        · simp
        · simp only [Option.map_map, Function.comp_def, hstep]
      · simp only [Option.map_map, Function.comp_def, hstep]

theorem closerAfter?_eq_partner? (p : Program) (i : Nat) :
    p.closerAfter? i =
      (partner? openByte closeByte 0 (p.text.drop (i + 1))).map (· + (i + 1)) := by
  rw [closerAfter?, scanRight_eq_partner?]
  by_cases h : i + 1 ≤ p.bytes.size
  · rw [show p.bytes.size - (p.bytes.size - (i + 1)) = i + 1 by omega]
  · -- past the end both scans have no text left
    have h0 : p.bytes.size - (p.bytes.size - (i + 1)) = p.bytes.size := by omega
    rw [h0, List.drop_eq_nil_of_le (Nat.le_of_eq p.length_text),
      List.drop_eq_nil_of_le (by rw [length_text]; omega)]
    rfl

theorem openerBefore?_eq_partner? (p : Program) {j : Nat} (h : j ≤ p.bytes.size) :
    p.openerBefore? j =
      (partner? closeByte openByte 0 (p.text.take j).reverse).map (j - 1 - ·) := by
  rw [openerBefore?, scanLeft_eq_partner?, Nat.min_eq_left h]

end Program

end Brainfuck
