import ScopedCss.ClassName
import ScopedCss.Json.Read
import ScopedCss.Rule
import ScopedCss.Style.Value

/-!
# Style objects from JSON

A style object is written as a JSON object whose members are strings, numbers, null or, one level
deeper, objects of strings, numbers and null. There are two ways to decode one. The readers
(`StyleObject.reader` and those below it) go through a text and stop where it first goes wrong,
with a place; they never build a document. The decoders (`StyleObject.ofJson` and those below it)
take a document that has been read already, and know no places.

Class names and rules are read from JSON strings, and written as such.
-/

namespace ScopedCss

open Json

/-- The double a JSON number stands for. -/
def Json.Number.toBinary64 : Json.Number → Binary64
  | .integer i => .ofInt i
  | .float x => x

/-! ## From a text -/

/-- Reads a value that is neither an array nor an object. The message about any other value says
what was expected. -/
def readScalar (expected : Expectation) : Reader StyleValue
  | [] => stopOn .endInValue []
  | 'n' :: r => do let (_, r) ← readWord ['u', 'l', 'l'] r; return (.null, r)
  | 't' :: r => do
    let (_, r) ← readWord ['r', 'u', 'e'] r
    stopBefore (.unexpected (.bool true) expected) r
  | 'f' :: r => do
    let (_, r) ← readWord ['a', 'l', 's', 'e'] r
    stopBefore (.unexpected (.bool false) expected) r
  | '"' :: r => do let (t, r) ← readString r; return (.text t, r)
  | '[' :: r =>
    let r := match skipBlanks r with
      | ']' :: r => r
      | ',' :: r => skipBlanks r
      | r => r
    stopBefore (.unexpected .sequence expected) r
  | '{' :: r =>
    let r := match skipBlanks r with
      | '}' :: r => r
      | r => r
    stopBefore (.unexpected .map expected) r
  | c :: r =>
    if c = '-' || c.isDigit then do
      let (n, r) ← readNumber (c :: r)
      return (.number n.toBinary64, r)
    else stopOn .expectedValue (c :: r)

/-- Reads the value of a property. -/
def StyleValue.reader : Reader StyleValue := fun s => readScalar .value (skipBlanks s)

/-- Reads the members of a block, from behind its opening brace. -/
def readBlock {α : Type} (value : Reader α) : Reader (OrderedMap String α) := fun s => do
  let (members, r) ← readMembers readString (fun _ => value) s.length true s
  return (OrderedMap.ofList members, r)

/-- Reads what stands under a key of a style object. -/
def StyleEntry.reader : Reader StyleEntry := fun s =>
  match skipBlanks s with
  | '{' :: r => do
    let (d, r) ← readBlock StyleValue.reader r
    return (.nested d, r)
  | r => do
    let (v, r) ← readScalar .entry r
    return (.value v, r)

/-- Stops at a value that is not of the expected kind. An array or object is not looked into; a
scalar is read first, so its own faults come before. -/
def refuse {α : Type} (expected : Expectation) : Reader α
  | [] => stopOn .endInValue []
  | '[' :: r => stopBefore (.unexpected .sequence expected) ('[' :: r)
  | '{' :: r => stopBefore (.unexpected .map expected) ('{' :: r)
  | 'n' :: r => do
    let (_, r) ← readWord ['u', 'l', 'l'] r
    stopBefore (.unexpected .null expected) r
  | 't' :: r => do
    let (_, r) ← readWord ['r', 'u', 'e'] r
    stopBefore (.unexpected (.bool true) expected) r
  | 'f' :: r => do
    let (_, r) ← readWord ['a', 'l', 's', 'e'] r
    stopBefore (.unexpected (.bool false) expected) r
  | '"' :: r => do
    let (t, r) ← readString r
    stopBefore (.unexpected (.string t) expected) r
  | c :: r =>
    if c = '-' || c.isDigit then do
      let (n, r) ← readNumber (c :: r)
      stopBefore (.unexpected (.number n) expected) r
    else stopOn .expectedValue (c :: r)

/-- Reads a block of declarations. -/
def Declarations.reader : Reader Declarations := fun s =>
  match skipBlanks s with
  | '{' :: r => readBlock StyleValue.reader r
  | r => refuse .declarations r

/-- Reads a style object. -/
def StyleObject.reader : Reader StyleObject := fun s =>
  match skipBlanks s with
  | '{' :: r => readBlock StyleEntry.reader r
  | r => refuse .styleObject r

/-- Reads a text. -/
def textReader : Reader String := fun s =>
  match skipBlanks s with
  | '"' :: r => readString r
  | r => refuse .text r

/-! ## From a document -/

/-- The value of a property. -/
def StyleValue.ofJson (expected : Expectation) : Json → Except Fault StyleValue
  | .null => .ok .null
  | .number n => .ok (.number n.toBinary64)
  | .string t => .ok (.text t)
  | d => .error (.unexpected d.found expected)

/-- Decodes members one after the other. -/
def decodeMembers {α : Type} (value : Json → Except Fault α) :
    List (String × Json) → Except Fault (List (String × α))
  | [] => .ok []
  | (name, d) :: rest => do
    let v ← value d
    let vs ← decodeMembers value rest
    return (name, v) :: vs

/-- A block of declarations. -/
def Declarations.ofJson : Json → Except Fault Declarations
  | .object members => do
    return OrderedMap.ofList (← decodeMembers (StyleValue.ofJson .value) members)
  | d => .error (.unexpected d.found .declarations)

/-- What stands under a key of a style object. -/
def StyleEntry.ofJson : Json → Except Fault StyleEntry
  | .object members => do
    return .nested (OrderedMap.ofList (← decodeMembers (StyleValue.ofJson .value) members))
  | d => do return .value (← StyleValue.ofJson .entry d)

/-- A style object. -/
def StyleObject.ofJson : Json → Except Fault StyleObject
  | .object members => do
    return OrderedMap.ofList (← decodeMembers StyleEntry.ofJson members)
  | d => .error (.unexpected d.found .styleObject)

/-- A text. -/
def textOfJson : Json → Except Fault String
  | .string t => .ok t
  | d => .error (.unexpected d.found .text)

/-! ## Class names, rules and style objects, with their errors -/

/-- Why something that should be a class name is refused. -/
inductive ClassName.DecodeError where
  /-- It is not a text. -/
  | json (e : Json.Error)
  /-- The text is no class name. -/
  | invalid (e : ClassName.Invalid)

/-- The message: that of the cause. -/
def ClassName.DecodeError.message : ClassName.DecodeError → String
  | .json e => e.message
  | .invalid e => e.message

/-- Reads a JSON text as a class name. A text that is no class name is refused before it is looked
at what follows. -/
def ClassName.parse (text : String) : Except ClassName.DecodeError ClassName :=
  let cs := text.toList
  match textReader cs with
  | .error stop => .error (.json (stop.error cs))
  | .ok (t, rest) =>
    match ClassName.ofText t with
    | .error e => .error (.invalid e)
    | .ok n =>
      match readEnd rest with
      | .error stop => .error (.json (stop.error cs))
      | .ok () => .ok n

/-- Decodes a class name. -/
def ClassName.ofJson (d : Json) : Except ClassName.DecodeError ClassName :=
  match textOfJson d with
  | .error fault => .error (.json ⟨fault, none⟩)
  | .ok t => (ClassName.ofText t).mapError .invalid

/-- A class name as JSON: the string of its letters. -/
def ClassName.encode (n : ClassName) : String := (Json.string n.text).write

/-- Reads a JSON text as a rule. -/
def StyleRule.parse (text : String) : Except Json.Error StyleRule :=
  (readAll textReader text).map StyleRule.mk

/-- A rule as JSON: the string of its text. -/
def StyleRule.encode (r : StyleRule) : String := (Json.string r.text).write

/-- Why a text is refused as a style object. -/
structure StyleObject.Invalid where
  /-- What is wrong with the text. -/
  cause : Json.Error

/-- The message for a refused style object. -/
def StyleObject.Invalid.message (e : StyleObject.Invalid) : String :=
  "invalid style object: " ++ e.cause.message

/-- Reads a JSON text as a style object. -/
def StyleObject.parse (text : String) : Except StyleObject.Invalid StyleObject :=
  (readAll StyleObject.reader text).mapError StyleObject.Invalid.mk

/-- Reads a JSON text as a block of declarations. -/
def Declarations.parse (text : String) : Except Json.Error Declarations :=
  readAll Declarations.reader text

end ScopedCss
