import ScopedCss.Number.Layout

/-!
# JSON documents

A document is kept as it was written: the members of an object stand in their order, and a name
may occur more than once. `collapse` gives the usual reading of such a document, in which a
repeated name keeps its first place and its last value.

`write` is the compact form: no blanks, and in a string only the quote, the backslash and the
control characters below U+0020 are escaped. The content hash is taken of this form, so it has to
be exact.
-/

namespace ScopedCss

/-- A JSON number: an integer that fits into 64 bits, or a double. -/
inductive Json.Number where
  /-- An integer from -2^63 to 2^64 - 1. -/
  | integer (i : Int)
  /-- Any other number, rounded. -/
  | float (x : Binary64)
  deriving DecidableEq

/-- A JSON document. -/
inductive Json where
  /-- The word `null`. -/
  | null
  /-- The words `true` and `false`. -/
  | bool (b : Bool)
  /-- A number. -/
  | number (n : Json.Number)
  /-- A string. -/
  | string (s : String)
  /-- An array. -/
  | array (items : List Json)
  /-- An object, its members in written order. -/
  | object (members : List (String × Json))

namespace Json

instance : Inhabited Json := ⟨.null⟩

/-! ## Strings -/

/-- A digit below 16, lower case. -/
def hexDigit (d : Nat) : Char :=
  if d < 10 then Char.ofNat (48 + d) else Char.ofNat (87 + d)

/-- One character inside a written string. -/
def escapeChar (c : Char) : List Char :=
  if c = '"' then ['\\', '"']
  else if c = '\\' then ['\\', '\\']
  else if c.toNat = 0x08 then ['\\', 'b']
  else if c.toNat = 0x09 then ['\\', 't']
  else if c.toNat = 0x0A then ['\\', 'n']
  else if c.toNat = 0x0C then ['\\', 'f']
  else if c.toNat = 0x0D then ['\\', 'r']
  else if c.toNat < 0x20 then
    ['\\', 'u', '0', '0', hexDigit (c.toNat / 16), hexDigit (c.toNat % 16)]
  else [c]

/-- A string with its quotes. -/
def writeString (s : String) : List Char :=
  '"' :: (s.toList.flatMap escapeChar ++ ['"'])

/-! ## Documents -/

/-- A number. -/
def Number.write : Number → List Char
  | .integer i => (toString i).toList
  | .float x => (Layout.json.writeBinary64 x).toList

mutual

/-- The characters of the compact form of a document. -/
def chars : Json → List Char
  | .null => "null".toList
  | .bool b => (if b then "true" else "false").toList
  | .number n => n.write
  | .string s => writeString s
  | .array items => '[' :: (charsOfItems items ++ [']'])
  | .object members => '{' :: (charsOfMembers members ++ ['}'])
termination_by structural d => d

/-- Items separated by commas. -/
def charsOfItems : List Json → List Char
  | [] => []
  | [d] => chars d
  | d :: rest => chars d ++ ',' :: charsOfItems rest
termination_by structural ds => ds

/-- Members separated by commas. -/
def charsOfMembers : List (String × Json) → List Char
  | [] => []
  | [(name, d)] => writeString name ++ ':' :: chars d
  | (name, d) :: rest => writeString name ++ ':' :: (chars d ++ ',' :: charsOfMembers rest)
termination_by structural ms => ms

end

/-- The compact form of a document. -/
def write (d : Json) : String := String.ofList d.chars

/-- Two blanks for each level of nesting. -/
def indent (level : Nat) : List Char := List.replicate (2 * level) ' '

mutual

/-- The characters of the spread-out form of a document: every item and member on a line of its
own, and an empty array or object kept together. -/
def spreadChars (level : Nat) : Json → List Char
  | .array [] => "[]".toList
  | .array items =>
    '[' :: '\n' :: (spreadItems (level + 1) items ++ '\n' :: (indent level ++ [']']))
  | .object [] => "\x7b\x7d".toList
  | .object members =>
    '{' :: '\n' :: (spreadMembers (level + 1) members ++ '\n' :: (indent level ++ ['}']))
  | d => chars d
termination_by structural d => d

/-- Items on lines of their own. -/
def spreadItems (level : Nat) : List Json → List Char
  | [] => []
  | [d] => indent level ++ spreadChars level d
  | d :: rest => indent level ++ spreadChars level d ++ ',' :: '\n' :: spreadItems level rest
termination_by structural ds => ds

/-- Members on lines of their own. -/
def spreadMembers (level : Nat) : List (String × Json) → List Char
  | [] => []
  | [(name, d)] => indent level ++ writeString name ++ ':' :: ' ' :: spreadChars level d
  | (name, d) :: rest =>
    indent level ++ writeString name ++ ':' :: ' ' :: (spreadChars level d ++
      ',' :: '\n' :: spreadMembers level rest)
termination_by structural ms => ms

end

/-- The spread-out form of a document, for people to read. -/
def writeSpread (d : Json) : String := String.ofList (spreadChars 0 d)

end Json

end ScopedCss
