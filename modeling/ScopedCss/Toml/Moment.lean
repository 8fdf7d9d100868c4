import ScopedCss.Toml.Scan

/-!
# Dates and times in a TOML document

A date may be followed by a time of day, and that by an offset; a time of day may also stand alone.
Dates are those of the calendar, leap years included.
-/

namespace ScopedCss.Toml

/-- Reads `n` digits as a number. -/
def readFixed (n : Nat) : Reader Nat := fun s =>
  let ds := s.take n
  if ds.length = n ∧ ds.all Char.isDigit then
    some (ds.foldl (fun m c => m * 10 + Json.digitValue c) 0, s.drop n)
  else none

/-- Reads a number of two digits between `low` and `high`. -/
def readTwo (low high : Nat) : Reader Nat := fun s => do
  let (m, s) ← readFixed 2 s
  if low ≤ m ∧ m ≤ high then return (m, s) else none

/-- Reads one given character. -/
def readMark (mark : Char) : Reader Unit
  | [] => none
  | c :: s => if c = mark then some ((), s) else none

/-- Whether a year has a 29th of February. -/
def isLeapYear (year : Nat) : Bool := year % 4 = 0 && (year % 100 ≠ 0 || year % 400 = 0)

/-- The number of days in a month. -/
def daysIn (year month : Nat) : Nat :=
  if month = 2 then if isLeapYear year then 29 else 28
  else if month = 4 ∨ month = 6 ∨ month = 9 ∨ month = 11 then 30
  else 31

/-- Reads a date. -/
def readDate : Reader Unit := fun s => do
  let (year, s) ← readFixed 4 s
  let (_, s) ← readMark '-' s
  let (month, s) ← readTwo 1 12 s
  let (_, s) ← readMark '-' s
  let (_, s) ← readTwo 1 (daysIn year month) s
  return ((), s)

/-- Reads fractions of a second, if there are any. -/
def skipFractions : List Char → List Char
  | '.' :: c :: s => if c.isDigit then s.dropWhile Char.isDigit else '.' :: c :: s
  | s => s

/-- Reads a time of day. A minute may have a leap second. -/
def readTime : Reader Unit := fun s => do
  let (_, s) ← readTwo 0 23 s
  let (_, s) ← readMark ':' s
  let (_, s) ← readTwo 0 59 s
  let (_, s) ← readMark ':' s
  let (_, s) ← readTwo 0 60 s
  return ((), skipFractions s)

/-- Reads the offset of a time. -/
def readOffset : Reader Unit
  | [] => none
  | c :: s =>
    if c = 'Z' ∨ c = 'z' then some ((), s)
    else if c = '+' ∨ c = '-' then do
      let (_, s) ← readTwo 0 23 s
      let (_, s) ← readMark ':' s
      let (_, s) ← readTwo 0 59 s
      return ((), s)
    else none

/-- Reads what may follow a date: a time of day with or without an offset. -/
def readClock : Reader Unit
  | [] => none
  | c :: s =>
    if c = 'T' ∨ c = 't' ∨ c = ' ' then do
      let (_, s) ← readTime s
      return ((readOffset s).getD ((), s))
    else none

/-- Reads a date, a time of day, or both. -/
def readMoment : Reader Toml := fun s =>
  match readDate s with
  | some (_, r) => some (.moment, ((readClock r).getD ((), r)).2)
  | none => (readTime s).map fun p => (.moment, p.2)

end ScopedCss.Toml
