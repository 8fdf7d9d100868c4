import ScopedCss.Number.Shortest

/-!
# Writing decimals

A decimal is written in positional notation while the exponent of its leading digit lies in a
certain range, and in exponent notation outside. The range, whether a whole number is marked by a
point, and the choice between equally short decimals make up a `Layout`.
-/

namespace ScopedCss

/-- How decimals are written. -/
structure Layout where
  /-- The least exponent of a leading digit that is written in positional notation. -/
  least : Int
  /-- The greatest exponent of a leading digit that is written in positional notation. -/
  greatest : Int
  /-- Whether a number that is written without places gets `.0`. -/
  wholeMark : Bool
  /-- Which of two equally near shortest decimals is written. -/
  tie : Tie

namespace Layout

/-- Numbers in style values: positional from 10^-6 to below 10^21, whole numbers bare. -/
def css : Layout := ⟨-6, 20, false, .up⟩

/-- Numbers in the messages about JSON: positional from 10^-5 to below 10^16, always with a
point. -/
def json : Layout := ⟨-5, 15, true, .toEven⟩

/-- A run of zeros. -/
def zeros (n : Nat) : List Char := List.replicate n '0'

/-- Positional notation of the digits `ds` with the point after `point` of them; a point before
the first or after the last digit is reached by zeros. -/
def positional (L : Layout) (ds : List Char) (point : Int) : List Char :=
  if point ≤ 0 then '0' :: '.' :: (zeros (-point).toNat ++ ds)
  else
    let n := point.toNat
    if ds.length ≤ n then
      ds ++ zeros (n - ds.length) ++ (if L.wholeMark then ['.', '0'] else [])
    else ds.take n ++ '.' :: ds.drop n

/-- Exponent notation: one digit, the others after a point, and the exponent with its sign. -/
def exponential (ds : List Char) (e : Int) : List Char :=
  let mantissa := match ds with
    | [] => []
    | [d] => [d]
    | d :: rest => d :: '.' :: rest
  mantissa ++ 'e' :: (if e < 0 then '-' else '+') :: Nat.toDigits 10 e.natAbs

/-- Writes a decimal without sign. -/
def write (L : Layout) (x : Decimal) : List Char :=
  let ds := Nat.toDigits 10 x.digits
  let e : Int := x.scale + ds.length - 1
  if L.least ≤ e ∧ e ≤ L.greatest then L.positional ds (e + 1) else exponential ds e

/-- Writes a finite double, the sign of a zero included. -/
def writeBinary64 (L : Layout) (x : Binary64) : String :=
  let decimal := if x.isZero then ⟨0, 0⟩ else x.shortest L.tie
  String.ofList ((if x.negative then ['-'] else []) ++ L.write decimal)

end Layout

end ScopedCss
