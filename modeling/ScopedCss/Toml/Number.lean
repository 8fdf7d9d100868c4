import ScopedCss.Toml.Scan

/-!
# Numbers in a TOML document

Integers are written in one of four bases and have to fit into 64 bits with a sign. Other numbers
have a point or an exponent; they stand for a double, and a positive one that is too large for any
is refused. Between two digits there may be an underscore.
-/

namespace ScopedCss.Toml

/-- Reads further digits, each with at most one underscore before it. -/
def readDigitTail (isDigit : Char → Bool) : List Char → List Char × List Char
  | '_' :: c :: s =>
    if isDigit c then
      let (ds, r) := readDigitTail isDigit s
      (c :: ds, r)
    else ([], '_' :: c :: s)
  | c :: s =>
    if isDigit c then
      let (ds, r) := readDigitTail isDigit s
      (c :: ds, r)
    else ([], c :: s)
  | [] => ([], [])

/-- Reads one or more digits. -/
def readDigits (isDigit : Char → Bool) : Reader (List Char)
  | [] => none
  | c :: s =>
    if isDigit c then
      let (ds, r) := readDigitTail isDigit s
      some (c :: ds, r)
    else none

/-- The number that some digits write in a base. -/
def numberOf (base : Nat) (ds : List Char) : Nat :=
  ds.foldl (fun n c => n * base + (Json.hexValue? c).getD 0) 0

/-- Reads a sign, if there is one, and tells whether it is a minus. -/
def readSign : List Char → Bool × List Char
  | '+' :: s => (false, s)
  | '-' :: s => (true, s)
  | s => (false, s)

/-- Reads the digits of a whole number in base ten. A zero at the front is its only digit. -/
def readWhole : Reader (List Char)
  | '0' :: s => some (['0'], s)
  | s => readDigits Char.isDigit s

/-- The digits of an octal number. -/
def isOctal (c : Char) : Bool := decide ('0' ≤ c) && decide (c ≤ '7')

/-- The digits of a binary number. -/
def isBinary (c : Char) : Bool := c = '0' || c = '1'

/-- The bound for integers: with a sign, they fit into 64 bits. -/
def integerBound : Nat := 0x8000000000000000

/-- Reads a number in another base, from behind the letter for the base. -/
def readInBase (base : Nat) (isDigit : Char → Bool) : Reader Toml := fun s => do
  let (ds, s) ← readDigits isDigit s
  if numberOf base ds < integerBound then return (.plain, s) else none

/-- Reads an integer. -/
def readInteger : Reader Toml
  | '0' :: 'x' :: s => readInBase 16 (fun c => (Json.hexValue? c).isSome) s
  | '0' :: 'o' :: s => readInBase 8 isOctal s
  | '0' :: 'b' :: s => readInBase 2 isBinary s
  | s => do
    let (negative, s) := readSign s
    let (ds, s) ← readWhole s
    if numberOf 10 ds < integerBound + (if negative then 1 else 0) then return (.plain, s)
    else none

/-! ## Numbers with a point or an exponent -/

/-- The least number that is rounded to infinity: half a unit above the greatest double. -/
def overflowBound : Nat := twoPow 1024 - twoPow 970

/-- Whether the number with some digits, scaled by a power of ten, is too large for a double. -/
def overflows (ds : List Char) (e : Int) : Bool :=
  let m := numberOf 10 ds
  if m = 0 then false
  else if 0 ≤ e then decide (310 < e) || decide (overflowBound ≤ m * tenPow e)
  else decide (e.natAbs < ds.length) && decide (overflowBound * tenPow (-e) ≤ m)

/-- Reads the exponent of a number. -/
def readExponent : Reader Int
  | [] => none
  | c :: s =>
    if c = 'e' ∨ c = 'E' then do
      let (negative, s) := readSign s
      let (ds, s) ← readDigits Char.isDigit s
      let x : Int := numberOf 10 ds
      return (if negative then -x else x, s)
    else none

/-- Reads a number with a point or an exponent. -/
def readFraction : Reader Toml := fun s => do
  let (negative, s) := readSign s
  let (whole, s) ← readWhole s
  let (places, e, s) ← match s with
    | '.' :: r => do
      let (places, r) ← readDigits Char.isDigit r
      let (e, r) := (readExponent r).getD (0, r)
      some (places, e, r)
    | r => do
      let (e, r) ← readExponent r
      some ([], e, r)
  if !negative && overflows (whole ++ places) (e - places.length) then none
  else return (.plain, s)

/-- Reads the words for infinity and for no number. -/
def readSpecial : Reader Toml := fun s =>
  match (readSign s).2 with
  | 'i' :: 'n' :: 'f' :: r => some (.plain, r)
  | 'n' :: 'a' :: 'n' :: r => some (.plain, r)
  | _ => none

end ScopedCss.Toml
