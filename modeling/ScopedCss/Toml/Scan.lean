import ScopedCss.Json.Scan
import ScopedCss.Toml.Document

/-!
# Reading the parts of a TOML document

Readers of blanks, comments, strings and names. A reader takes the characters that are left and
returns what it read together with what is then left, or nothing if the text is no TOML. Most of
them begin behind the character by which they were chosen.
-/

namespace ScopedCss.Toml

/-- A reader: the value read and the characters left after it. -/
abbrev Reader (α : Type) := List Char → Option (α × List Char)

/-! ## Blanks and comments -/

/-- The blanks inside a line. -/
def isBlank (c : Char) : Bool := c = ' ' || c = '\t'

/-- What may stand in a comment: everything but control characters other than the tab. -/
def isPrintable (c : Char) : Bool := c = '\t' || (decide (0x20 ≤ c.toNat) && decide (c.toNat ≠ 0x7F))

/-- Drops leading blanks. -/
def skipBlanks (s : List Char) : List Char := s.dropWhile isBlank

/-- Reads the end of a line. -/
def readNewline : Reader Unit
  | '\n' :: s => some ((), s)
  | '\r' :: '\n' :: s => some ((), s)
  | _ => none

/-- Reads what may stand behind a statement: blanks, a comment, and the end of the line or of the
text. -/
def readLineEnd : Reader Unit := fun s =>
  let s := match skipBlanks s with
    | '#' :: r => r.dropWhile isPrintable
    | r => r
  match s with
  | [] => some ((), [])
  | s => readNewline s

/-- Drops blanks, line ends and comments; `comment` tells whether the text begins inside one. -/
def skipLayout (comment : Bool) : List Char → List Char
  | [] => []
  | '\n' :: s => skipLayout false s
  | '\r' :: '\n' :: s => skipLayout false s
  | c :: s =>
    if comment then if isPrintable c then skipLayout true s else c :: s
    else if isBlank c then skipLayout false s
    else if c = '#' then skipLayout true s
    else c :: s

/-! ## Strings -/

/-- The number that some hexadecimal digits write. -/
def hexNumber? (ds : List Char) : Option Nat :=
  ds.foldlM (fun n c => do return n * 16 + (← Json.hexValue? c)) 0

/-- Reads the `n` hexadecimal digits of an escape that names a character. -/
def readCodePoint (n : Nat) : Reader Char := fun s => do
  let ds := s.take n
  let code ← if ds.length = n then hexNumber? ds else none
  if code < 0xD800 ∨ (0xDFFF < code ∧ code < 0x110000) then
    return (Char.ofNat code, s.drop n)
  else none

/-- Reads an escape, from behind its backslash. -/
def readEscape : Reader Char
  | 'b' :: s => some ('\x08', s)
  | 't' :: s => some ('\t', s)
  | 'n' :: s => some ('\n', s)
  | 'f' :: s => some ('\x0c', s)
  | 'r' :: s => some ('\r', s)
  | '"' :: s => some ('"', s)
  | '\\' :: s => some ('\\', s)
  | 'u' :: s => readCodePoint 4 s
  | 'U' :: s => readCodePoint 8 s
  | _ => none

/-- Drops what a backslash at the end of a line takes away: everything up to the next character
that is neither a blank nor a line end. -/
def skipFold : List Char → List Char
  | '\r' :: '\n' :: s => skipFold s
  | c :: s => if isBlank c || c = '\n' then skipFold s else c :: s
  | [] => []

/-- Reads a string on one line up to its closing quote, with at most `n` characters. In single
quotes, a backslash is an ordinary character. -/
def readInLine (quote : Char) : Nat → Reader (List Char)
  | _, [] => none
  | n, c :: s =>
    if c = quote then some ([], s)
    else match n with
      | 0 => none
      | n + 1 => do
        let (c, s) ←
          if c = '\\' ∧ quote = '"' then readEscape s
          else if isPrintable c then some (c, s)
          else none
        let (cs, s) ← readInLine quote n s
        return (c :: cs, s)

/-- Reads a string over several lines up to its three closing quotes, with at most `n` characters.
One or two quotes before the closing ones belong to the string. -/
def readOverLines (quote : Char) : Nat → Reader (List Char)
  | 0, _ => none
  | n + 1, s =>
    let quotes := s.takeWhile (· = quote)
    if 3 ≤ quotes.length then
      let length := min 5 quotes.length
      some (List.replicate (length - 3) quote, s.drop length)
    else match s with
      | [] => none
      | '\n' :: s => do
        let (cs, s) ← readOverLines quote n s
        return ('\n' :: cs, s)
      | '\r' :: '\n' :: s => do
        let (cs, s) ← readOverLines quote n s
        return ('\n' :: cs, s)
      | c :: s =>
        if c = '\\' ∧ quote = '"' then
          if (readNewline (skipBlanks s)).isSome then readOverLines quote n (skipFold s)
          else do
            let (c, s) ← readEscape s
            let (cs, s) ← readOverLines quote n s
            return (c :: cs, s)
        else if isPrintable c then do
          let (cs, s) ← readOverLines quote n s
          return (c :: cs, s)
        else none

/-- Reads a string of any kind, from behind the first of its opening quotes. A line end right
behind three opening quotes is no part of the string. -/
def readString (quote : Char) : Reader String := fun s => do
  let (cs, s) ←
    if s.take 2 = [quote, quote] then
      let s := s.drop 2
      let s := (readNewline s).elim s Prod.snd
      readOverLines quote (s.length + 1) s
    else readInLine quote s.length s
  return (String.ofList cs, s)

/-! ## Names -/

/-- What a name without quotes is made of. -/
def isBare (c : Char) : Bool := c.isAlphanum || c = '-' || c = '_'

/-- Reads one part of a name. -/
def readPart : Reader String
  | '"' :: s => do
    let (cs, s) ← readInLine '"' s.length s
    return (String.ofList cs, s)
  | '\'' :: s => do
    let (cs, s) ← readInLine '\'' s.length s
    return (String.ofList cs, s)
  | s =>
    let part := s.takeWhile isBare
    if part.isEmpty then none else some (String.ofList part, s.dropWhile isBare)

/-- Reads a name of at most `n` parts with points between them, and the blanks around them. -/
def readName : Nat → Reader (List String)
  | 0, _ => none
  | n + 1, s => do
    let (part, s) ← readPart (skipBlanks s)
    match skipBlanks s with
    | '.' :: s => do
      let (parts, s) ← readName n s
      return (part :: parts, s)
    | s => return ([part], s)

end ScopedCss.Toml
