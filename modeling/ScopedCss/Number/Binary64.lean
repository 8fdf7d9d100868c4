/-!
# Binary floating-point numbers

The numbers of a style are IEEE 754 doubles. A `Binary64` is the 64-bit word itself: a sign bit, an
exponent field of 11 bits and a fraction of 52 bits. For a finite word the magnitude is
`significand * 2 ^ exponent`, an exact pair of integers, and everything that is computed here
(rounding, products, quotients, decimal digits) is computed on such pairs in exact arithmetic.

`Rounding` holds the one inexact step: the double nearest to a quotient of natural numbers.
-/

namespace ScopedCss

/-- An IEEE 754 double, as its word. -/
structure Binary64 where
  /-- Sign, exponent field and fraction, from the highest bit down. -/
  bits : UInt64
  deriving DecidableEq

namespace Binary64

/-- The exponent field of infinities and NaNs. -/
def topField : Nat := 0x7FF

/-- The place value of the sign bit, `2 ^ 63`. -/
def signUnit : Nat := 0x8000000000000000

/-- The place value of the lowest bit of the exponent field, and of the hidden bit, `2 ^ 52`. -/
def fieldUnit : Nat := 0x10000000000000

/-- Whether the sign bit is set. -/
def negative (x : Binary64) : Bool := decide (signUnit ≤ x.bits.toNat)

/-- The word without its sign bit. -/
def magnitudeBits (x : Binary64) : Nat := x.bits.toNat % signUnit

/-- The 11 bits that hold the biased exponent. -/
def field (x : Binary64) : Nat := x.magnitudeBits / fieldUnit

/-- The 52 bits after the point. -/
def fraction (x : Binary64) : Nat := x.magnitudeBits % fieldUnit

/-- Neither an infinity nor a NaN. -/
def isFinite (x : Binary64) : Bool := decide (x.field < topField)

/-- An infinity of either sign. -/
def isInfinite (x : Binary64) : Bool := decide (x.field = topField ∧ x.fraction = 0)

/-- Not a number. -/
def isNaN (x : Binary64) : Bool := decide (x.field = topField ∧ x.fraction ≠ 0)

/-- A zero of either sign. -/
def isZero (x : Binary64) : Bool := decide (x.magnitudeBits = 0)

/-- The integer significand of a finite word: the fraction, with the hidden bit if normal. -/
def significand (x : Binary64) : Nat :=
  if x.field = 0 then x.fraction else fieldUnit + x.fraction

/-- The power of two that the significand is multiplied with. -/
def exponent (x : Binary64) : Int := (max x.field 1 : Nat) - 1075

/-- The double with the given sign and the given lower 63 bits. -/
def ofMagnitude (negative : Bool) (bits : Nat) : Binary64 :=
  ⟨UInt64.ofNat ((if negative then signUnit else 0) + bits)⟩

/-- The zero of the given sign. -/
def zero (negative : Bool) : Binary64 := ofMagnitude negative 0

/-- The same magnitude with the sign bit flipped. -/
def neg (x : Binary64) : Binary64 := ofMagnitude (!x.negative) x.magnitudeBits

end Binary64

end ScopedCss
