/-!
# Blanks

* `isBlank`: the characters with Unicode's property White_Space.
* `trim`: a text without the blanks at its ends.
-/

namespace Brainfuck

/-- Does the character have the Unicode property White_Space? -/
def isBlank (c : Char) : Bool :=
  let n := c.toNat
  (0x09 ≤ n && n ≤ 0x0D) || n == 0x20 || n == 0x85 || n == 0xA0 || n == 0x1680 ||
    (0x2000 ≤ n && n ≤ 0x200A) || n == 0x2028 || n == 0x2029 || n == 0x202F || n == 0x205F ||
    n == 0x3000

/-- The text without the blanks before its first other character. -/
def trimLeft (s : List Char) : List Char := s.dropWhile isBlank

/-- The text without the blanks after its last other character. -/
def trimRight (s : List Char) : List Char := (s.reverse.dropWhile isBlank).reverse

/-- The text without the blanks at its ends. -/
def trim (s : List Char) : List Char := trimRight (trimLeft s)

end Brainfuck
