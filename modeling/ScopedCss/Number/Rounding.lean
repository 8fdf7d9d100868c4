import ScopedCss.Number.Binary64

/-!
# Rounding to the nearest double

`Binary64.nearest` takes an exact quotient of natural numbers to the double nearest to it, a tie
going to the even significand and too large a quotient to infinity. It is the only place where
precision is lost: conversion from integers and from single precision, products and quotients are
all exact pairs of integers handed to `nearest`.

The word is found without a case distinction between normal and subnormal numbers. With the
quotient in units of `2 ^ q`, where `q` is chosen so that 53 bits stand before the point (or is the
least exponent there is), the rounded count of units is the significand, and since the hidden bit
carries into the exponent field, `(q + 1074) * fieldUnit + significand` is the word in every case.
-/

namespace ScopedCss

/-- The quotient rounded to an integer, a half going to the even neighbour. -/
def roundHalfEven (num den : Nat) : Nat :=
  let q := num / den
  let r := num % den
  if 2 * r < den then q
  else if den < 2 * r then q + 1
  else if q % 2 = 0 then q else q + 1

/-- The power `2 ^ e` for a non-negative exponent, otherwise 1. -/
def twoPow (e : Int) : Nat := Nat.pow 2 e.toNat

/-- The power `10 ^ e` for a non-negative exponent, otherwise 1. -/
def tenPow (e : Int) : Nat := Nat.pow 10 e.toNat

namespace Binary64

/-- The exponent of the leading binary digit of `num / den`: the greatest `e` with
`2 ^ e ≤ num / den`. -/
def leadingExponent (num den : Nat) : Int :=
  let e : Int := (num.log2 : Int) - den.log2
  if num * twoPow (-e) < den * twoPow e then e - 1 else e

/-- The lower 63 bits of the double nearest to `num / den`. -/
def nearestMagnitude (num den : Nat) : Nat :=
  if num = 0 then 0
  else
    let q : Int := max (leadingExponent num den - 52) (-1074)
    let significand := roundHalfEven (num * twoPow (-q)) (den * twoPow q)
    min ((q + 1074).toNat * fieldUnit + significand) (topField * fieldUnit)

/-- The double nearest to `num / den`, with the given sign. -/
def nearest (negative : Bool) (num den : Nat) : Binary64 :=
  ofMagnitude negative (nearestMagnitude num den)

/-- The double nearest to a natural number. -/
def ofNat (n : Nat) : Binary64 := nearest false n 1

/-- The double nearest to an integer. -/
def ofInt (i : Int) : Binary64 := nearest (decide (i < 0)) i.natAbs 1

/-- The product of finite doubles, rounded once. -/
def mul (x y : Binary64) : Binary64 :=
  let e := x.exponent + y.exponent
  nearest (x.negative != y.negative) (x.significand * y.significand * twoPow e) (twoPow (-e))

/-- The quotient of finite doubles, rounded once; the divisor is not zero. -/
def div (x y : Binary64) : Binary64 :=
  let e := x.exponent - y.exponent
  nearest (x.negative != y.negative) (x.significand * twoPow e) (y.significand * twoPow (-e))

/-- In a single, the place value of the sign bit, `2 ^ 31`. -/
def singleSignUnit : Nat := 0x80000000

/-- In a single, the place value of the lowest bit of the exponent field, `2 ^ 23`. -/
def singleFieldUnit : Nat := 0x800000

/-- The double with the value of an IEEE 754 single; every single is a double, and the payload of
a NaN keeps its place below the point. -/
def ofSingle (word : UInt32) : Binary64 :=
  let w := word.toNat
  let negative := decide (singleSignUnit ≤ w)
  let field := w / singleFieldUnit % 0x100
  let fraction := w % singleFieldUnit
  if field = 0xFF then
    ofMagnitude negative (topField * fieldUnit + fraction * (fieldUnit / singleFieldUnit))
  else
    let significand := if field = 0 then fraction else singleFieldUnit + fraction
    let e : Int := (max field 1 : Nat) - 150
    nearest negative (significand * twoPow e) (twoPow (-e))

end Binary64

end ScopedCss
