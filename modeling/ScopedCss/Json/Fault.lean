import ScopedCss.Json.Document
import ScopedCss.Text.Quoted

/-!
# What can be wrong with a JSON text

A fault is a cause, with its wording in `Fault.message`. A text is refused with a fault and the
place where reading stopped, a line and a column that count octets; a document that has already
been read is refused with a fault alone.
-/

namespace ScopedCss.Json

/-- What kind of thing stood in the document. -/
inductive Found where
  /-- The word `null`. -/
  | null
  /-- A truth value. -/
  | bool (b : Bool)
  /-- A number. -/
  | number (n : Number)
  /-- A string. -/
  | string (s : String)
  /-- An array. -/
  | sequence
  /-- An object. -/
  | map

/-- The kind of a document. -/
def found : Json → Found
  | .null => .null
  | .bool b => .bool b
  | .number n => .number n
  | .string s => .string s
  | .array _ => .sequence
  | .object _ => .map

/-- How a message names what it found. -/
def Found.phrase : Found → String
  | .null => "null"
  | .bool b => "boolean \x60" ++ (if b then "true" else "false") ++ "\x60"
  | .number (.integer i) => "integer \x60" ++ toString i ++ "\x60"
  | .number (.float x) => "floating point \x60" ++ Layout.json.writeBinary64 x ++ "\x60"
  | .string s => "string " ++ Text.quote s
  | .sequence => "sequence"
  | .map => "map"

/-- What a reader of styles may be looking for. -/
inductive Expectation where
  /-- A whole style object. -/
  | styleObject
  /-- A block of declarations. -/
  | declarations
  /-- The value of a property. -/
  | value
  /-- What may stand under a key of a style object. -/
  | entry
  /-- Any text. -/
  | text
  deriving DecidableEq

/-- How a message names what was looked for. -/
def Expectation.phrase : Expectation → String
  | .styleObject => "a style object"
  | .declarations => "a map of property names to values"
  | .value => "a string, a number, or null"
  | .entry => "a string, a number, null, or a nested declaration block"
  | .text => "a string"

/-- Why a JSON text or document is refused. -/
inductive Fault where
  /-- The text ends where a value has to stand. -/
  | endInValue
  /-- The text ends inside an array. -/
  | endInArray
  /-- The text ends inside an object. -/
  | endInObject
  /-- The text ends inside a string. -/
  | endInString
  /-- Nothing that stands here begins a value. -/
  | expectedValue
  /-- A word that began like `null`, `true` or `false` went on otherwise. -/
  | expectedWord
  /-- A name is not followed by a colon. -/
  | expectedColon
  /-- An item is followed by neither a comma nor the closing bracket. -/
  | expectedCommaOrBracket
  /-- A member is followed by neither a comma nor the closing brace. -/
  | expectedCommaOrBrace
  /-- A comma stands before the closing bracket or brace. -/
  | trailingComma
  /-- The name of a member is no string. -/
  | nameNotString
  /-- Something follows the document. -/
  | trailingCharacters
  /-- A number breaks off or has a superfluous zero. -/
  | invalidNumber
  /-- A number is too large for a double. -/
  | numberOutOfRange
  /-- A control character stands unescaped in a string. -/
  | controlCharacter
  /-- An escape is none of the known ones. -/
  | invalidEscape
  /-- One half of a surrogate pair is missing. -/
  | loneSurrogate
  /-- The first half of a surrogate pair is not followed by another escape. -/
  | unfinishedPair
  /-- A value is well formed but not of the kind that is wanted. -/
  | unexpected (found : Found) (expected : Expectation)

/-- The wording of a fault. -/
def Fault.message : Fault → String
  | .endInValue => "EOF while parsing a value"
  | .endInArray => "EOF while parsing a list"
  | .endInObject => "EOF while parsing an object"
  | .endInString => "EOF while parsing a string"
  | .expectedValue => "expected value"
  | .expectedWord => "expected ident"
  | .expectedColon => "expected \x60:\x60"
  | .expectedCommaOrBracket => "expected \x60,\x60 or \x60]\x60"
  | .expectedCommaOrBrace => "expected \x60,\x60 or \x60\x7d\x60"
  | .trailingComma => "trailing comma"
  | .nameNotString => "key must be a string"
  | .trailingCharacters => "trailing characters"
  | .invalidNumber => "invalid number"
  | .numberOutOfRange => "number out of range"
  | .controlCharacter => "control character (\\u0000-\\u001F) found while parsing a string"
  | .invalidEscape => "invalid escape"
  | .loneSurrogate => "lone leading surrogate in hex escape"
  | .unfinishedPair => "unexpected end of hex escape"
  | .unexpected found expected =>
    "invalid type: " ++ found.phrase ++ ", expected " ++ expected.phrase

/-! ## Places -/

/-- A place in a text. -/
structure Position where
  /-- The line, counted from 1. -/
  line : Nat
  /-- The number of octets between the beginning of the line and the place. -/
  column : Nat
  deriving DecidableEq

/-- The number of octets of some characters in UTF-8. -/
def octets (cs : List Char) : Nat := cs.foldr (fun c n => c.utf8Size + n) 0

/-- The place reached from `p` by going over `n` octets of a text. -/
def Position.advance (p : Position) : List Char → Nat → Position
  | [], _ => p
  | c :: cs, n =>
    if n = 0 then p
    else if n < c.utf8Size then ⟨p.line, p.column + n⟩
    else if c = '\n' then advance ⟨p.line + 1, 0⟩ cs (n - 1)
    else advance ⟨p.line, p.column + c.utf8Size⟩ cs (n - c.utf8Size)

/-- Why and where reading stopped. -/
structure Error where
  /-- The cause. -/
  fault : Fault
  /-- The place, if it was a text that was read. -/
  position : Option Position

/-- The message for an error: the wording of the fault, and the place if there is one. -/
def Error.message (e : Error) : String :=
  match e.position with
  | none => e.fault.message
  | some p =>
    e.fault.message ++ " at line " ++ toString p.line ++ " column " ++ toString p.column

end ScopedCss.Json
