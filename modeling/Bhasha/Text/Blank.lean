import Bhasha.Text.Range

namespace Bhasha.Text

def wideBlanks : Ranges :=
  [(0x85, 0x85), (0xa0, 0xa0), (0x1680, 0x1680), (0x2000, 0x200a), (0x2028, 0x2029),
   (0x202f, 0x202f), (0x205f, 0x205f), (0x3000, 0x3000)]

/-- The blanks that may surround a number in text. -/
def isNumberBlank (c : Char) : Bool :=
  c == ' ' || (0x9 ≤ c.toNat && c.toNat ≤ 0xd) || wideBlanks.has c

/-- All blanks, with the four information separators. -/
def isBlank (c : Char) : Bool :=
  isNumberBlank c || (0x1c ≤ c.toNat && c.toNat ≤ 0x1f)

/-- `s` without the characters of `p` at its two ends. -/
def trimBy (p : Char → Bool) (s : List Char) : List Char :=
  ((s.dropWhile p).reverse.dropWhile p).reverse

end Bhasha.Text
