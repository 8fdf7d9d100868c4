import ScopedCss.Json.Fault

/-!
# Reading pieces of JSON

A reader takes the characters that are left and returns what it read together with what is then
left. Where it stops with a fault, it says before which characters, and how many octets past that
point the fault is reported; the place in lines and columns is worked out from this once, at the
end (`readAll`).

A reader of object members is built from a reader of names and one of values, so that the same
grammar serves for whole documents, for style objects and for blocks of declarations. Repetition
is bounded by a number that the callers take from the length of the text: every round consumes at
least one character.

Numbers that have a point or an exponent, or too many digits, are scaled by one rounded power of
ten. The result is not always the nearest double, and the readers of this library agree on it.
-/

namespace ScopedCss.Json

/-- Why and where a reader stopped: `past` octets beyond the point where `rest` is left. -/
structure Stop where
  /-- The cause. -/
  fault : Fault
  /-- The characters left at the point of reference. -/
  rest : List Char
  /-- The octets between the point of reference and the reported place. -/
  past : Nat

/-- A reader: the value read and the characters left after it. -/
abbrev Reader (α : Type) := List Char → Except Stop (α × List Char)

/-- Stops right before `rest`. -/
def stopBefore {α : Type} (fault : Fault) (rest : List Char) : Except Stop α :=
  .error ⟨fault, rest, 0⟩

/-- Stops one octet past the point where `rest` is left. -/
def stopOn {α : Type} (fault : Fault) (rest : List Char) : Except Stop α :=
  .error ⟨fault, rest, 1⟩

/-! ## Blanks and words -/

/-- The four blank characters of JSON. -/
def isBlank (c : Char) : Bool := c = ' ' || c = '\n' || c = '\t' || c = '\r'

/-- Drops leading blanks. -/
def skipBlanks (s : List Char) : List Char := s.dropWhile isBlank

/-- Reads the given letters. -/
def readWord : List Char → Reader Unit
  | [], s => .ok ((), s)
  | _ :: _, [] => stopBefore .endInValue []
  | w :: ws, c :: s => if c = w then readWord ws s else stopOn .expectedWord (c :: s)

/-! ## Numbers -/

/-- The value of a decimal digit. -/
def digitValue (c : Char) : Nat := c.toNat - 48

/-- Reads digits onto a number for as long as it stays below a bound. What is left begins with a
digit only if that digit would have reached the bound. -/
def takeDigits (bound : Nat) : Nat → List Char → Nat × List Char
  | m, [] => (m, [])
  | m, c :: s =>
    if c.isDigit && decide (m * 10 + digitValue c < bound) then
      takeDigits bound (m * 10 + digitValue c) s
    else (m, c :: s)

/-- The bound for the digits of a number: they fit into 64 bits. -/
def mantissaBound : Nat := 0x10000000000000000

/-- The bound for the digits of an exponent: with a sign, they fit into 32 bits. -/
def exponentBound : Nat := 0x80000000

/-- The greatest power of ten that a double can hold. -/
def greatestTen : Nat := 308

/-- The power `10 ^ k` as a double. -/
def tenToThe (k : Nat) : Binary64 := .ofNat (tenPow k)

/-- Multiplies by `10 ^ e`, or divides by `10 ^ -e`, with one rounding. `none` if the product is
too large. -/
def timesTen (x : Binary64) (e : Int) : Option Binary64 :=
  if 0 ≤ e then
    let y := x.mul (tenToThe e.natAbs)
    if y.isInfinite then none else some y
  else some (x.div (tenToThe e.natAbs))

/-- Scales by `10 ^ e`. A power of ten too small for a double is divided away in steps of
`greatestTen`, of which the first argument allows as many as can be needed. -/
def scaleByTen : Nat → Binary64 → Int → Option Binary64
  | 0, x, e => timesTen x e
  | n + 1, x, e =>
    if e.natAbs ≤ greatestTen then timesTen x e
    else if x.isZero then some x
    else if 0 ≤ e then none
    else scaleByTen n (x.div (tenToThe greatestTen)) (e + greatestTen)

/-- The number `± m * 10 ^ e`. -/
def scaled (negative : Bool) (m : Nat) (e : Int) (rest : List Char) :
    Except Stop (Number × List Char) :=
  match scaleByTen (e.natAbs / greatestTen) (.ofNat m) e with
  | none => stopBefore .numberOutOfRange rest
  | some x => .ok (.float (if negative then x.neg else x), rest)

/-- An exponent kept within 32 bits. -/
def clampExponent (e : Int) : Int := max (-exponentBound) (min (exponentBound - 1) e)

/-- Reads an exponent, from behind its letter, for the number `± m * 10 ^ e`. -/
def readExponent (negative : Bool) (m : Nat) (e : Int) (s : List Char) :
    Except Stop (Number × List Char) :=
  let (down, s) := match s with
    | '+' :: r => (false, r)
    | '-' :: r => (true, r)
    | r => (false, r)
  match s with
  | [] => stopBefore .endInValue []
  | c :: r =>
    if !c.isDigit then stopOn .invalidNumber (c :: r)
    else
      let (x, r) := takeDigits exponentBound (digitValue c) r
      match r with
      | d :: _ =>
        if d.isDigit then
          if m ≠ 0 ∧ !down then stopOn .numberOutOfRange r
          else .ok (.float (.zero negative), r.dropWhile Char.isDigit)
        else scaled negative m (clampExponent (if down then e - x else e + x)) r
      | [] => scaled negative m (clampExponent (if down then e - x else e + x)) r

/-- Reads what may follow the digits of `± m * 10 ^ e`: an exponent or nothing. -/
def readScale (negative : Bool) (m : Nat) (e : Int) (s : List Char) :
    Except Stop (Number × List Char) :=
  match s with
  | 'e' :: r => readExponent negative m e r
  | 'E' :: r => readExponent negative m e r
  | r => scaled negative m e r

/-- Reads the places after a point. Places for which there is no more room are read over. -/
def readPlaces (negative : Bool) (m : Nat) (e : Int) (s : List Char) :
    Except Stop (Number × List Char) :=
  let (m', r) := takeDigits mantissaBound m s
  let places := s.length - r.length
  match r with
  | [] => if places = 0 then stopOn .endInValue [] else readScale negative m' (e - places) r
  | c :: _ =>
    if !c.isDigit && places = 0 then stopOn .invalidNumber r
    else readScale negative m' (e - places) (r.dropWhile Char.isDigit)

/-- A number written without point and exponent. -/
def wholeNumber (negative : Bool) (m : Nat) : Number :=
  if !negative then .integer m
  else if m = 0 then .float (.zero true)
  else if m ≤ 0x8000000000000000 then .integer (-m)
  else .float (Binary64.ofNat m).neg

/-- Reads what follows the whole part of a number, of which `m` was taken and `dropped` digits
were read over. -/
def readTail (negative : Bool) (m dropped : Nat) (s : List Char) :
    Except Stop (Number × List Char) :=
  match s with
  | '.' :: r => readPlaces negative m dropped r
  | r =>
    if dropped = 0 ∧ r.head? ≠ some 'e' ∧ r.head? ≠ some 'E' then
      .ok (wholeNumber negative m, r)
    else readScale negative m dropped r

/-- Reads a number. -/
def readNumber : Reader Number := fun s =>
  let (negative, s) := match s with
    | '-' :: r => (true, r)
    | r => (false, r)
  match s with
  | [] => stopBefore .endInValue []
  | c :: r =>
    if !c.isDigit then stopOn .invalidNumber (c :: r)
    else if c = '0' then
      match r with
      | d :: _ => if d.isDigit then stopOn .invalidNumber r else readTail negative 0 0 r
      | [] => readTail negative 0 0 r
    else
      let (m, r) := takeDigits mantissaBound (digitValue c) r
      readTail negative m (r.takeWhile Char.isDigit).length (r.dropWhile Char.isDigit)

/-! ## Strings -/

/-- The value of a hexadecimal digit of either case. -/
def hexValue? (c : Char) : Option Nat :=
  if c.isDigit then some (c.toNat - 48)
  else if 'a' ≤ c ∧ c ≤ 'f' then some (c.toNat - 87)
  else if 'A' ≤ c ∧ c ≤ 'F' then some (c.toNat - 55)
  else none

/-- Reads four hexadecimal digits. Fewer than four octets are an end of the text. -/
def readHexQuad : Reader Nat := fun s =>
  if octets s < 4 then stopBefore .endInString []
  else match s with
    | a :: b :: c :: d :: r =>
      match hexValue? a, hexValue? b, hexValue? c, hexValue? d with
      | some a, some b, some c, some d => .ok (((a * 16 + b) * 16 + c) * 16 + d, r)
      | _, _, _, _ => .error ⟨.invalidEscape, s, 4⟩
    | _ => .error ⟨.invalidEscape, s, 4⟩

/-- Reads one given character between the two escapes of a surrogate pair. -/
def readPairMark (mark : Char) : Reader Unit
  | [] => stopBefore .endInString []
  | c :: s => if c = mark then .ok ((), s) else stopOn .unfinishedPair (c :: s)

/-- Reads the digits of a `\u` escape, and the second escape if the first is the leading half of a
surrogate pair. -/
def readUnicodeEscape : Reader Char := fun s => do
  let (n, s) ← readHexQuad s
  if 0xDC00 ≤ n ∧ n ≤ 0xDFFF then stopBefore .loneSurrogate s
  else if 0xD800 ≤ n ∧ n ≤ 0xDBFF then
    let (_, s) ← readPairMark '\\' s
    let (_, s) ← readPairMark 'u' s
    let (m, s) ← readHexQuad s
    if 0xDC00 ≤ m ∧ m ≤ 0xDFFF then
      return (Char.ofNat (0x10000 + (n - 0xD800) * 0x400 + (m - 0xDC00)), s)
    else stopBefore .loneSurrogate s
  else return (Char.ofNat n, s)

/-- Reads an escape, from behind its backslash. -/
def readEscape : Reader Char
  | [] => stopBefore .endInString []
  | '"' :: s => .ok ('"', s)
  | '\\' :: s => .ok ('\\', s)
  | '/' :: s => .ok ('/', s)
  | 'b' :: s => .ok ('\x08', s)
  | 'f' :: s => .ok ('\x0c', s)
  | 'n' :: s => .ok ('\n', s)
  | 'r' :: s => .ok ('\r', s)
  | 't' :: s => .ok ('\t', s)
  | 'u' :: s => readUnicodeEscape s
  | s => stopOn .invalidEscape s

/-- Reads the characters of a string, from behind its opening quote, with at most `n` of them. -/
def readChars : Nat → Reader (List Char)
  | _, [] => stopBefore .endInString []
  | n, c :: s =>
    if c = '"' then .ok ([], s)
    else if c.toNat < 0x20 then stopOn .controlCharacter (c :: s)
    else match n with
      | 0 => stopBefore .endInString []
      | n + 1 =>
        if c = '\\' then do
          let (d, s) ← readEscape s
          let (ds, s) ← readChars n s
          return (d :: ds, s)
        else do
          let (ds, s) ← readChars n s
          return (c :: ds, s)

/-- Reads a string, from behind its opening quote. -/
def readString : Reader String := fun s => do
  let (cs, s) ← readChars s.length s
  return (String.ofList cs, s)

/-! ## Objects -/

/-- Reads up to the opening quote of the name of a member: before the first one nothing, before
any other one a comma. -/
def readNameStart (first : Bool) : Reader Unit := fun s =>
  if first then
    match s with
    | '"' :: r => .ok ((), r)
    | r => stopOn .nameNotString r
  else
    match s with
    | ',' :: r =>
      match skipBlanks r with
      | [] => stopOn .endInValue []
      | '"' :: r => .ok ((), r)
      | '}' :: r => stopOn .trailingComma ('}' :: r)
      | r => stopOn .nameNotString r
    | r => stopOn .expectedCommaOrBrace r

/-- Reads the colon behind a name. -/
def readColon : Reader Unit := fun s =>
  match skipBlanks s with
  | [] => stopOn .endInObject []
  | ':' :: r => .ok ((), r)
  | r => stopOn .expectedColon r

/-- Reads the members of an object up to its closing brace: from behind the opening brace if
`first`, from behind a member otherwise. There are at most `n` of them. A name is read from behind
its opening quote, and a value knows the name it stands under. -/
def readMembers {κ α : Type} (name : Reader κ) (value : κ → Reader α) :
    Nat → Bool → Reader (List (κ × α))
  | n, first, s =>
    match skipBlanks s with
    | [] => stopOn .endInObject []
    | '}' :: r => .ok ([], r)
    | s =>
      match n with
      | 0 => stopBefore .endInObject []
      | n + 1 => do
        let (_, s) ← readNameStart first s
        let (k, s) ← name s
        let (_, s) ← readColon s
        let (v, s) ← value k s
        let (rest, s) ← readMembers name value n false s
        return ((k, v) :: rest, s)

/-! ## Whole texts -/

/-- Where a reader of `text` stopped. -/
def Stop.position (text : List Char) (stop : Stop) : Position :=
  Position.advance ⟨1, 0⟩ text (octets text - octets stop.rest + stop.past)

/-- The error for a reader that stopped in `text`. -/
def Stop.error (text : List Char) (stop : Stop) : Error :=
  ⟨stop.fault, some (stop.position text)⟩

/-- Reads what may follow a document: blanks. -/
def readEnd (s : List Char) : Except Stop Unit :=
  match skipBlanks s with
  | [] => .ok ()
  | r => stopOn .trailingCharacters r

/-- Reads a whole text, on which nothing but blanks may follow. -/
def readAll {α : Type} (reader : Reader α) (text : String) : Except Error α :=
  let cs := text.toList
  match (do let (v, s) ← reader cs; readEnd s; return v : Except Stop α) with
  | .ok v => .ok v
  | .error stop => .error (stop.error cs)

end ScopedCss.Json
