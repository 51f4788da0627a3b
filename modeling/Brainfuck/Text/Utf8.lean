/-!
# UTF-8

Reading bytes as text. The bytes are cut into pieces: each is a well-formed encoding of one
character, or a malformed run, which is the longest beginning of a well-formed encoding found
at its place, or one byte if there is none.

* `Utf8.pieces`: the pieces, a malformed one as none.
* `Utf8.decode?`: the text, if no piece is malformed.
* `Utf8.decodeLossy`: the text with U+FFFD in place of each malformed piece.
-/

namespace Brainfuck

namespace Utf8

/-- What the first byte of an encoding says of the rest: how many bytes follow, between which
bounds the first of them lies, and the bits that this byte gives. -/
structure Lead where
  following : Nat
  low : UInt8
  high : UInt8
  bits : Nat

/-- The first byte of an encoding of two to four bytes. The bounds on the byte after it shut
out overlong forms, surrogates and numbers past the last character. -/
def lead? (b : UInt8) : Option Lead :=
  if 0xC2 ≤ b ∧ b ≤ 0xDF then some ⟨1, 0x80, 0xBF, b.toNat % 0x20⟩
  else if b = 0xE0 then some ⟨2, 0xA0, 0xBF, 0⟩
  else if b = 0xED then some ⟨2, 0x80, 0x9F, 0xD⟩
  else if 0xE1 ≤ b ∧ b ≤ 0xEF then some ⟨2, 0x80, 0xBF, b.toNat % 0x10⟩
  else if b = 0xF0 then some ⟨3, 0x90, 0xBF, 0⟩
  else if 0xF1 ≤ b ∧ b ≤ 0xF3 then some ⟨3, 0x80, 0xBF, b.toNat % 8⟩
  else if b = 0xF4 then some ⟨3, 0x80, 0x8F, 4⟩
  else none

/-- Where a reader stands: between two encodings, or inside one that has `following` bytes
still to come, the next of them between the bounds, and these bits so far. -/
inductive State where
  | between
  | inside (l : Lead)

/-- The reader after a byte that begins a piece, with the pieces the byte completes. -/
def begin (b : UInt8) (done : Array (Option Char)) : State × Array (Option Char) :=
  if b < 0x80 then (.between, done.push (some (Char.ofNat b.toNat)))
  else
    match lead? b with
    | some l => (.inside l, done)
    | none => (.between, done.push none)

/-- The reader after one more byte. A byte out of bounds ends a malformed piece before it and
begins a piece of its own. -/
def next (s : State) (b : UInt8) (done : Array (Option Char)) : State × Array (Option Char) :=
  match s with
  | .between => begin b done
  | .inside l =>
    if l.low ≤ b ∧ b ≤ l.high then
      let bits := l.bits * 0x40 + b.toNat % 0x40
      if l.following ≤ 1 then (.between, done.push (some (Char.ofNat bits)))
      else (.inside ⟨l.following - 1, 0x80, 0xBF, bits⟩, done)
    else begin b (done.push none)

/-- Reads on to the end of the bytes, where an encoding left unfinished is malformed. -/
def readOn (s : State) (done : Array (Option Char)) : List UInt8 → Array (Option Char)
  | [] =>
    match s with
    | .between => done
    | .inside _ => done.push none
  | b :: rest =>
    let (s, done) := next s b done
    readOn s done rest

/-- The pieces of the bytes in order, each malformed one as none. -/
def pieces (bytes : List UInt8) : Array (Option Char) := readOn .between #[] bytes

/-- The characters that the bytes encode, if they are well formed. -/
def decode? (bytes : List UInt8) : Option (List Char) := (pieces bytes).toList.mapM id

/-- The text of the bytes, with a replacement character for each malformed piece. -/
def decodeLossy (bytes : List UInt8) : String :=
  String.ofList ((pieces bytes).toList.map (·.getD '\uFFFD'))

end Utf8

end Brainfuck
