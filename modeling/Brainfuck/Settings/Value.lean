import Brainfuck.Text.Blank
import Brainfuck.Text.Numeral

/-!
# Values of settings

How the text of a setting reads as a tape size or as a switch. Blanks around the text do not
count, and a text that reads as neither is none.
-/

namespace Brainfuck

/-- A tape size: a positive index, with underscores anywhere among its digits. -/
def readTapeSize? (s : List Char) : Option Nat :=
  match Numeral.read ((trim s).filter (· != '_')) with
  | .ok n => if 0 < n then some n else none
  | .error _ => none

/-- The words that turn a switch on. -/
def onWords : List (List Char) := [['1'], ['t', 'r', 'u', 'e'], ['y', 'e', 's'], ['o', 'n']]

/-- The words that turn a switch off. -/
def offWords : List (List Char) :=
  [['0'], ['f', 'a', 'l', 's', 'e'], ['n', 'o'], ['o', 'f', 'f']]

/-- A switch: one of the words for on or off, where the case of ASCII letters does not count. -/
def readSwitch? (s : List Char) : Option Bool :=
  let word := (trim s).map Char.toLower
  if word ∈ onWords then some true
  else if word ∈ offWords then some false
  else none

/-- A tape size is positive. -/
theorem pos_of_readTapeSize? {s : List Char} {n : Nat} (h : readTapeSize? s = some n) : 0 < n := by
  unfold readTapeSize? at h
  split at h
  · split at h
    · cases h; assumption
    · cases h
  · cases h

end Brainfuck
