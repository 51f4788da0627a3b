import Brainfuck.IoError

/-!
# Input scripts

An input is a script of what its reads will find, one item a read, and what every read finds
after the last item. Raising the cancel flag is an item too: it takes place inside a read,
which then goes on to the next item.
-/

namespace Brainfuck

/-- One item of an input script. -/
inductive InputItem where
  /-- A read finds this byte. -/
  | byte (b : UInt8)
  /-- A read finds the end of input. Later items are still there for later reads. -/
  | endOfInput
  /-- A read fails. -/
  | fail (e : IoError)
  /-- The cancel flag is raised while a read waits. -/
  | cancel
  deriving DecidableEq, Repr

/-- What one read finds. -/
inductive ReadResult where
  | byte (b : UInt8)
  | endOfInput
  | failed (e : IoError)
  deriving DecidableEq, Repr

/-- An input: its script, and the error that every read past the script fails with, or none
if those reads find the end of input. -/
structure Source where
  items : List InputItem
  broken : Option IoError
  deriving DecidableEq, Repr

namespace Source

/-- The input that holds these bytes and then ends. -/
def ofBytes (bs : List UInt8) : Source := ⟨bs.map .byte, none⟩

/-- What a read finds past the end of the script. -/
def pastEnd (broken : Option IoError) : ReadResult :=
  match broken with
  | none => .endOfInput
  | some e => .failed e

/-- One read of a script: what it finds, whether it raises the cancel flag on the way, and
the items it leaves. -/
def readItems (broken : Option IoError) : List InputItem → ReadResult × Bool × List InputItem
  | [] => (pastEnd broken, false, [])
  | .byte b :: rest => (.byte b, false, rest)
  | .endOfInput :: rest => (.endOfInput, false, rest)
  | .fail e :: rest => (.failed e, false, rest)
  | .cancel :: rest =>
    let (result, _, left) := readItems broken rest
    (result, true, left)

/-- One read: what it finds, whether it raises the cancel flag, and the input after it. -/
def read (s : Source) : ReadResult × Bool × Source :=
  let (result, cancels, items) := readItems s.broken s.items
  (result, cancels, { s with items })

end Source

end Brainfuck
