import Brainfuck.Block
import Brainfuck.Proofs.Scan

/-!
# Blocks in a text

Where the bytes of a block stand in a program, so do the bytes of its parts, and the jumps
between the brackets of its loops stay inside it.

* `Program.HasAt`: some bytes stand at an index of a program.
* `Program.closerAfter?_of_loop`, `Program.openerBefore?_of_loop`: a loop finds its own brackets.
-/

namespace Brainfuck

namespace Program

/-- The bytes stand at index `i` of the program. -/
def HasAt (p : Program) (i : Nat) (bytes : List UInt8) : Prop :=
  ∃ before behind, p.text = before ++ bytes ++ behind ∧ before.length = i

variable {p : Program} {i : Nat} {s t : List UInt8} {b : UInt8} {body next : Block}

theorem hasAt_toProgram (block : Block) : block.toProgram.HasAt 0 block.text :=
  ⟨[], [], by simp [text, Block.toProgram], rfl⟩

theorem HasAt.left (h : p.HasAt i (s ++ t)) : p.HasAt i s := by
  obtain ⟨before, behind, htext, hlength⟩ := h
  exact ⟨before, t ++ behind, by simpa using htext, hlength⟩

theorem HasAt.right (h : p.HasAt i (s ++ t)) : p.HasAt (i + s.length) t := by
  obtain ⟨before, behind, htext, rfl⟩ := h
  exact ⟨before ++ s, behind, by simpa using htext, by simp⟩

theorem HasAt.head (h : p.HasAt i (b :: s)) : p.byteAt? i = some b := by
  obtain ⟨before, behind, htext, rfl⟩ := h
  simp [byteAt?_eq_text, htext]

theorem HasAt.tail (h : p.HasAt i (b :: s)) : p.HasAt (i + 1) s := HasAt.right (s := [b]) h

theorem HasAt.le_size (h : p.HasAt i s) : i + s.length ≤ p.bytes.size := by
  obtain ⟨before, behind, htext, rfl⟩ := h
  rw [← length_text, htext]
  simp

theorem HasAt.exists_drop (h : p.HasAt i s) : ∃ behind, p.text.drop i = s ++ behind := by
  obtain ⟨before, behind, htext, rfl⟩ := h
  exact ⟨behind, by rw [htext, List.append_assoc, List.drop_left]⟩

theorem HasAt.exists_take (h : p.HasAt i s) :
    ∃ before, p.text.take (i + s.length) = before ++ s := by
  obtain ⟨before, behind, htext, rfl⟩ := h
  exact ⟨before, by rw [htext]; exact List.take_left' (by simp)⟩

theorem HasAt.loop_body (h : p.HasAt i (Block.loop body next).text) : p.HasAt (i + 1) body.text :=
  h.left.tail

/-- The close of a loop, with all that follows it. -/
theorem HasAt.loop_close (h : p.HasAt i (Block.loop body next).text) :
    p.HasAt (i + body.text.length + 1) (closeByte :: next.text) := h.right

/-- **The open of a loop finds its close**: the body in between is well bracketed. -/
theorem closerAfter?_of_loop (h : p.HasAt i (Block.loop body next).text) :
    p.closerAfter? i = some (i + body.text.length + 1) := by
  obtain ⟨behind, hdrop⟩ : ∃ behind, p.text.drop (i + 1) =
      body.text ++ closeByte :: next.text ++ behind := (HasAt.tail h).exists_drop
  rw [closerAfter?_eq_partner?, hdrop, List.append_assoc, partner?_append body.wellBracketed_text,
    List.cons_append, partner?_cons_back_zero openByte_ne_closeByte]
  simp only [Option.map_some, Option.some.injEq]
  omega

/-- **The close of a loop finds its open**: the body in between is well bracketed. -/
theorem openerBefore?_of_loop (h : p.HasAt i (Block.loop body next).text) :
    p.openerBefore? (i + body.text.length + 1) = some i := by
  have hle : i + body.text.length + 1 ≤ p.bytes.size := h.left.le_size
  obtain ⟨before, htake⟩ : ∃ before, p.text.take (i + body.text.length + 1) =
      before ++ openByte :: body.text := h.left.exists_take
  rw [openerBefore?_eq_partner? p hle, htake, List.reverse_append, List.reverse_cons,
    List.append_assoc, partner?_append_reverse body.wellBracketed_text, List.singleton_append,
    partner?_cons_back_zero openByte_ne_closeByte.symm]
  simp only [Option.map_some, Option.some.injEq]
  omega

end Program

end Brainfuck
