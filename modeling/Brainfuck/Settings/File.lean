import Brainfuck.Settings.Value
import Brainfuck.Text.Split

/-!
# The settings file

A text in sections, of which one counts. Its lines, without the blanks around them, are:

* nothing, or a comment that starts with `#`;
* a header `[name]`, which begins a section;
* an assignment `key = value`, where the value may stand in double quotes;
* anything else, which is skipped.

The last assignment to a key is the one that counts, also if its value cannot be read.

* `FileSettings.ofText`: the settings in a text.
* `FileSettings.refusedTapeSize?`: the tape size that was set and cannot be read.
-/

namespace Brainfuck

/-- The settings of a file, as far as it has them. -/
structure FileSettings where
  tapeSize : Option Nat := none
  quiet : Option Bool := none
  deriving DecidableEq, Repr, Inhabited

namespace FileSettings

/-- The name of the section that counts. -/
def sectionName : List Char := "interpreter".toList

/-- The key of the tape size. -/
def tapeSizeKey : List Char := "tape_size".toList

/-- The key of the quiet switch. -/
def quietKey : List Char := "quiet".toList

/-- One line of a settings file. -/
inductive Line where
  | skipped
  | header (name : List Char)
  | assignment (key value : List Char)
  deriving DecidableEq, Repr

/-- The value without one pair of double quotes around it. -/
def unquote (s : List Char) : List Char :=
  match s with
  | '"' :: rest => if rest.getLast? = some '"' then rest.dropLast else s
  | _ => s

/-- The name between the brackets of a header. -/
def headerName? (s : List Char) : Option (List Char) :=
  match s with
  | '[' :: rest => if rest.getLast? = some ']' then some rest.dropLast else none
  | _ => none

/-- The key and the value on either side of the first equals sign. -/
def assignment? (s : List Char) : Option (List Char × List Char) :=
  match s.dropWhile (· != '=') with
  | [] => none
  | _ :: value => some (trim (s.takeWhile (· != '=')), unquote (trim value))

/-- What a line is, once the blanks around it are gone. -/
def Line.ofTrimmed (s : List Char) : Line :=
  if s = [] ∨ s.head? = some '#' then .skipped
  else
    match headerName? s with
    | some name => .header name
    | none =>
      match assignment? s with
      | some (key, value) => .assignment key value
      | none => .skipped

/-- What a line is. -/
def Line.ofText (s : List Char) : Line := .ofTrimmed (trim s)

/-- A reader of settings between two lines: whether it is in the section that counts, and the
last value that was assigned to each key. -/
structure Reader where
  inSection : Bool := false
  tapeSize : Option (List Char) := none
  quiet : Option (List Char) := none
  deriving DecidableEq, Repr

/-- Assigns a value to a key; other keys are nobody's concern. -/
def Reader.assign (r : Reader) (key value : List Char) : Reader :=
  if key = tapeSizeKey then { r with tapeSize := some value }
  else if key = quietKey then { r with quiet := some value }
  else r

/-- Reads a line. -/
def Reader.line (r : Reader) : Line → Reader
  | .skipped => r
  | .header name => { r with inSection := name = sectionName }
  | .assignment key value => if r.inSection then r.assign key value else r

/-- The reader after all lines of a text. A carriage return before the line feed is a blank at
the end of its line. -/
def readLines (text : List Char) : Reader :=
  (splitOn '\n' text).foldl (fun r s => r.line (.ofText s)) {}

/-- The settings in a text. -/
def ofText (text : List Char) : FileSettings :=
  let r := readLines text
  { tapeSize := r.tapeSize.bind readTapeSize?, quiet := r.quiet.bind readSwitch? }

/-- The tape size that a text sets last, if it cannot be read. -/
def refusedTapeSize? (text : List Char) : Option (List Char) :=
  (readLines text).tapeSize.filter fun value => (readTapeSize? value).isNone

end FileSettings

end Brainfuck
