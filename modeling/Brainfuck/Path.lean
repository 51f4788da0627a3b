import Brainfuck.IoError
import Brainfuck.Text.Utf8

/-!
# Paths

A path is a string of bytes; the slash parts its names. Most paths are text, and are shown as
such.
-/

namespace Brainfuck

/-- A string of bytes from outside: an argument, a setting of the environment, a path. -/
abbrev Bytes := List UInt8

/-- The way to a file. -/
abbrev Path := Bytes

/-- What can be asked of a store of files: the bytes of the file at a path. -/
abbrev Files := Path → Except IoError (Array UInt8)

namespace Path

/-- The byte that parts the names of a path. -/
def slash : UInt8 := 0x2F

/-- A path written as a string. -/
def ofString (s : String) : Path := s.toUTF8.toList

/-- A path as diagnostics show it. -/
def text (p : Path) : String := Utf8.decodeLossy p

/-- The path of a name within a directory. One slash parts them, unless the directory's path is
empty or ends in one. -/
def join (dir name : Path) : Path :=
  if dir = [] ∨ dir.getLast? = some slash then dir ++ name else dir ++ slash :: name

end Path

end Brainfuck
