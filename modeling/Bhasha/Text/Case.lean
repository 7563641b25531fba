namespace Bhasha.Text

/-- Lower case for the characters whose lower case is an ASCII letter: the capitals and the sign for
the kelvin. -/
def lower (c : Char) : Char :=
  if 'A' ≤ c && c ≤ 'Z' then Char.ofNat (c.toNat + 32)
  else if c.toNat = 0x212a then 'k'
  else c

end Bhasha.Text
