/-!
# Numerals

Reading an index (a number below 2 ^ 64) from its decimal digits. One plus sign may stand in
front, zeros may lead, and nothing else is allowed. The characters are read from the left, and
the first that makes the text unreadable says why.
-/

namespace Brainfuck

/-- Why a text is no index. -/
inductive NumeralError where
  | empty
  | invalidDigit
  | tooLarge
  deriving DecidableEq, Repr

/-- What is said of a text that is no index. -/
def NumeralError.message : NumeralError → String
  | .empty => "cannot parse integer from empty string"
  | .invalidDigit => "invalid digit found in string"
  | .tooLarge => "number too large to fit in target type"

namespace Numeral

/-- The greatest index. -/
def maxIndex : Nat := 0xFFFFFFFFFFFFFFFF

/-- The value of a decimal digit. -/
def digit? (c : Char) : Option Nat := if c.isDigit then some (c.toNat - '0'.toNat) else none

/-- Reads one more digit behind the value of the digits before it. -/
def addDigit (value : Nat) (c : Char) : Except NumeralError Nat :=
  match digit? c with
  | none => .error .invalidDigit
  | some d => if value * 10 + d ≤ maxIndex then .ok (value * 10 + d) else .error .tooLarge

/-- Reads digits behind a value. -/
def readDigits (value : Nat) (s : List Char) : Except NumeralError Nat := s.foldlM addDigit value

/-- Reads a text as an index. -/
def read (s : List Char) : Except NumeralError Nat :=
  match s with
  | [] => .error .empty
  | ['+'] => .error .invalidDigit
  | '+' :: digits => readDigits 0 digits
  | digits => readDigits 0 digits

end Numeral

end Brainfuck
