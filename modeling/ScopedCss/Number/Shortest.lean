import ScopedCss.Number.Rounding

/-!
# Shortest decimal digits

A double is written with as few decimal digits as still tell it apart from its neighbours, and
with the best choice among those. The numbers that round to a given double form an interval around
it, whose ends belong to it exactly when its significand is even. The decimal grids
`{d * 10 ^ k}` are tried from coarse to fine; on each only the two grid points next to the value
can be nearest, so the first grid with one of them inside the interval gives the fewest digits.
If both are inside, the nearer is taken; an exact tie goes up or to the even one, as the format at
hand wants it (`Tie`).

The search ends because the grid of the unit itself, `10 ^ k` with `k` the exponent of the unit if
negative and 0 otherwise, contains the value: `2 ^ -n` is `5 ^ n * 10 ^ -n`. So what is returned
always lies in the interval.
-/

namespace ScopedCss

/-- A positive value and the interval of the numbers that round to it, all as integer multiples of
`2 ^ unit`. -/
structure RoundingInterval where
  /-- The value. -/
  value : Nat
  /-- The lower end. -/
  lower : Nat
  /-- The upper end. -/
  upper : Nat
  /-- Whether the ends belong to the interval. -/
  closed : Bool
  /-- The exponent of the power of two that is the unit. -/
  unit : Int

/-- Which of two equally near decimals is taken. -/
inductive Tie where
  /-- The larger one. -/
  | up
  /-- The one whose last digit is even. -/
  | toEven
  deriving DecidableEq

/-- A decimal: `digits * 10 ^ scale`. -/
structure Decimal where
  /-- The digits, read as one number. -/
  digits : Nat
  /-- The power of ten of the last digit. -/
  scale : Int
  deriving DecidableEq

namespace RoundingInterval

/-- The interval of a finite double that is not zero. Below a power of two the neighbour is only
half as far away, except at the least exponent. -/
def of (x : Binary64) : RoundingInterval where
  value := 4 * x.significand
  lower := if x.fraction = 0 ∧ 1 < x.field then 4 * x.significand - 1 else 4 * x.significand - 2
  upper := 4 * x.significand + 2
  closed := x.significand % 2 = 0
  unit := x.exponent - 2

/-- What a count of units is multiplied with to compare it with grid points of `10 ^ k`. -/
def unitFactor (w : RoundingInterval) (k : Int) : Nat := twoPow w.unit * tenPow (-k)

/-- What a count of grid points of `10 ^ k` is multiplied with to compare it with units. -/
def gridFactor (w : RoundingInterval) (k : Int) : Nat := tenPow k * twoPow (-w.unit)

/-- Whether `d * 10 ^ k` rounds to the value. -/
def contains (w : RoundingInterval) (k : Int) (d : Nat) : Bool :=
  let p := d * w.gridFactor k
  let lo := w.lower * w.unitFactor k
  let hi := w.upper * w.unitFactor k
  if w.closed then decide (lo ≤ p ∧ p ≤ hi) else decide (lo < p ∧ p < hi)

/-- The last point of the grid of `10 ^ k` that is not above the value. -/
def floorAt (w : RoundingInterval) (k : Int) : Nat := w.value * w.unitFactor k / w.gridFactor k

/-- Of two neighbouring grid points around the value the nearer. -/
def nearer (w : RoundingInterval) (tie : Tie) (k : Int) (d : Nat) : Nat :=
  let twice := 2 * (w.value * w.unitFactor k)
  let middle := (2 * d + 1) * w.gridFactor k
  if twice < middle then d
  else if middle < twice then d + 1
  else match tie with
    | .up => d + 1
    | .toEven => if d % 2 = 0 then d else d + 1

/-- The best point of the grid of `10 ^ k`, if one lies in the interval. -/
def pointAt? (w : RoundingInterval) (tie : Tie) (k : Int) : Option Nat :=
  let d := w.floorAt k
  match w.contains k d, w.contains k (d + 1) with
  | true, true => some (w.nearer tie k d)
  | true, false => some d
  | false, true => some (d + 1)
  | false, false => none

/-- Tries the grids from `10 ^ (k₀ + n)` down to `10 ^ k₀`, on which the value itself lies. -/
def search (w : RoundingInterval) (tie : Tie) (k₀ : Int) : Nat → Decimal
  | 0 => ⟨w.floorAt k₀, k₀⟩
  | n + 1 =>
    match w.pointAt? tie (k₀ + (n + 1 : Nat)) with
    | some d => ⟨d, k₀ + (n + 1 : Nat)⟩
    | none => search w tie k₀ n

/-- The exponent of a grid that is too coarse to have a point in the interval, or just fine
enough: a binary digit is worth less than 0.30103 decimal ones. -/
def coarsest (w : RoundingInterval) : Int := ((w.upper.log2 : Int) + w.unit + 1) * 30103 / 100000 + 1

/-- The decimal with the fewest digits in the interval, the nearest of those. -/
def shortest (w : RoundingInterval) (tie : Tie) : Decimal :=
  let k₀ := min w.unit 0
  w.search tie k₀ (w.coarsest - k₀).toNat

end RoundingInterval

/-- The shortest decimal that reads back as the given double, which is finite and not zero. The
sign is left out. -/
def Binary64.shortest (x : Binary64) (tie : Tie) : Decimal := (RoundingInterval.of x).shortest tie

end ScopedCss
