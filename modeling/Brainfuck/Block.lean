import Brainfuck.Program.Grammar

/-!
# Blocks

Programs as trees: single bytes and loops in sequence. A block has brackets only as its loops,
so its text is well bracketed.

* `Block.text`: the bytes of a block.
* `Block.wellBracketed_text`: the text of a block is well bracketed.
-/

namespace Brainfuck

/-- A byte that is no bracket. -/
structure PlainByte where
  byte : UInt8
  not_open : byte ≠ openByte
  not_close : byte ≠ closeByte
  deriving DecidableEq

/-- A sequence of single bytes and loops. -/
inductive Block where
  | empty
  | plain (b : PlainByte) (next : Block)
  | loop (body next : Block)

namespace Block

/-- The bytes of a block. -/
def text : Block → List UInt8
  | empty => []
  | plain b next => b.byte :: next.text
  | loop body next => openByte :: body.text ++ closeByte :: next.text

/-- The program whose text is the block's. -/
def toProgram (block : Block) : Program := ⟨block.text.toArray⟩

theorem wellBracketed_text (block : Block) : WellBracketed block.text := by
  induction block with
  | empty => exact .nil
  | plain b next ih => exact .plain b.not_open b.not_close ih
  | loop body next hb hn => exact .loop hb hn

end Block

end Brainfuck
