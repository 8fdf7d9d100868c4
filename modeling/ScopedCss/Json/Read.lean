import ScopedCss.Json.Scan
import ScopedCss.OrderedMap

/-!
# Reading JSON documents

The reader of whole documents. It keeps the members of an object as they are written; `collapse`
gives the reading in which a repeated name keeps its first place and its last value.
-/

namespace ScopedCss.Json

/-- Reads the items of an array up to its closing bracket: from behind the opening bracket if
`first`, from behind an item otherwise. There are at most `n` of them. -/
def readItems {α : Type} (value : Reader α) : Nat → Bool → Reader (List α)
  | n, first, s =>
    match skipBlanks s with
    | [] => stopOn .endInArray []
    | ']' :: r => .ok ([], r)
    | c :: r =>
      match n with
      | 0 => stopBefore .endInArray []
      | n + 1 => do
        let s ← if first then .ok (c :: r)
          else if c ≠ ',' then stopOn .expectedCommaOrBracket (c :: r)
          else match skipBlanks r with
            | ']' :: r => stopOn .trailingComma (']' :: r)
            | [] => stopOn .endInValue []
            | r => .ok r
        let (v, s) ← value s
        let (rest, s) ← readItems value n false s
        return (v :: rest, s)

/-- Reads a value with at most `depth` levels of nesting. -/
def readValue : Nat → Reader Json
  | depth, s =>
    match skipBlanks s with
    | [] => stopOn .endInValue []
    | 'n' :: r => do let (_, r) ← readWord ['u', 'l', 'l'] r; return (.null, r)
    | 't' :: r => do let (_, r) ← readWord ['r', 'u', 'e'] r; return (.bool true, r)
    | 'f' :: r => do let (_, r) ← readWord ['a', 'l', 's', 'e'] r; return (.bool false, r)
    | '"' :: r => do let (t, r) ← readString r; return (.string t, r)
    | '[' :: r =>
      match depth with
      | 0 => stopBefore .endInArray []
      | depth + 1 => do
        let (items, r) ← readItems (readValue depth) r.length true r
        return (.array items, r)
    | '{' :: r =>
      match depth with
      | 0 => stopBefore .endInObject []
      | depth + 1 => do
        let (members, r) ←
          readMembers readString (fun _ => readValue depth) r.length true r
        return (.object members, r)
    | c :: r =>
      if c = '-' || c.isDigit then do
        let (n, r) ← readNumber (c :: r)
        return (.number n, r)
      else stopOn .expectedValue (c :: r)

/-- Reads a document. No text nests deeper than it is long. -/
def read (text : String) : Except Error Json := readAll (readValue text.length) text

mutual

/-- The document in which every name of an object occurs once, at the place of its first
occurrence and with the value of its last. -/
def collapse : Json → Json
  | .array items => .array (collapseItems items)
  | .object members => .object (OrderedMap.ofList (collapseMembers members)).toList
  | d => d
termination_by structural d => d

/-- Collapses every item. -/
def collapseItems : List Json → List Json
  | [] => []
  | d :: rest => collapse d :: collapseItems rest
termination_by structural ds => ds

/-- Collapses the value of every member. -/
def collapseMembers : List (String × Json) → List (String × Json)
  | [] => []
  | (name, d) :: rest => (name, collapse d) :: collapseMembers rest
termination_by structural ms => ms

end

end ScopedCss.Json
