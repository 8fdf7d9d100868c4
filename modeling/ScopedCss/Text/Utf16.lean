/-!
# UTF-16 code units

The content hash reads a text as the sequence of its UTF-16 code units, the units in which a
browser counts, so that a name computed there and a name computed here agree. A character of the
Basic Multilingual Plane is one unit; any other character is a pair of surrogates.
-/

namespace ScopedCss.Text

/-- The UTF-16 code units of one character. -/
def charUnits (c : Char) : List UInt16 :=
  if c.toNat < 0x10000 then [UInt16.ofNat c.toNat]
  else
    let v := c.toNat - 0x10000
    [UInt16.ofNat (0xD800 + v / 0x400), UInt16.ofNat (0xDC00 + v % 0x400)]

/-- The UTF-16 code units of a text, first to last. -/
def units16 (s : String) : List UInt16 := s.toList.flatMap charUnits

/-- Units distribute over concatenation: no unit spans two characters. -/
@[simp] theorem units16_append (s t : String) : units16 (s ++ t) = units16 s ++ units16 t := by
  simp [units16]

end ScopedCss.Text
