import ScopedCss.Json.Read

/-!
# Passing over JSON

Settings may have members that nobody asks for. `skim` passes over such a value: it checks that
the value is well formed, but it makes nothing of it, so it does not mind a number that no double
can hold or one half of a surrogate pair.
-/

namespace ScopedCss.Json

/-- Passes over a string, from behind its opening quote. -/
def skimString : Reader Unit
  | [] => stopBefore .endInString []
  | '"' :: s => .ok ((), s)
  | '\\' :: 'u' :: a :: b :: c :: d :: s =>
    if [a, b, c, d].all fun x => (hexValue? x).isSome then skimString s
    else stopBefore .invalidEscape s
  | '\\' :: c :: s =>
    if c ∈ ['"', '\\', '/', 'b', 'f', 'n', 'r', 't'] then skimString s
    else stopBefore .invalidEscape s
  | c :: s => if c.toNat < 0x20 then stopOn .controlCharacter (c :: s) else skimString s

/-- Passes over one or more digits. -/
def skimDigits : Reader Unit
  | [] => stopBefore .endInValue []
  | c :: s => if c.isDigit then .ok ((), s.dropWhile Char.isDigit) else stopOn .invalidNumber (c :: s)

/-- Passes over digits of which the first is a zero only if it is the only one. -/
def skimWhole : Reader Unit
  | '0' :: c :: s => if c.isDigit then stopOn .invalidNumber (c :: s) else .ok ((), c :: s)
  | s => skimDigits s

/-- Passes over an exponent, if there is one. -/
def skimExponent (s : List Char) : Except Stop (Unit × List Char) :=
  match s with
  | [] => .ok ((), [])
  | c :: r =>
    if c ≠ 'e' ∧ c ≠ 'E' then .ok ((), c :: r)
    else match r with
      | '+' :: r => skimDigits r
      | '-' :: r => skimDigits r
      | r => skimDigits r

/-- Passes over a number. -/
def skimNumber : Reader Unit := fun s => do
  let s := match s with
    | '-' :: r => r
    | r => r
  let (_, s) ← skimWhole s
  match s with
  | '.' :: r => do
    let (_, r) ← skimDigits r
    skimExponent r
  | r => skimExponent r

/-- Passes over a value with at most `depth` levels of nesting. -/
def skimValue : Nat → Reader Unit
  | depth, s =>
    match skipBlanks s with
    | [] => stopOn .endInValue []
    | 'n' :: r => readWord ['u', 'l', 'l'] r
    | 't' :: r => readWord ['r', 'u', 'e'] r
    | 'f' :: r => readWord ['a', 'l', 's', 'e'] r
    | '"' :: r => skimString r
    | '[' :: r =>
      match depth with
      | 0 => stopBefore .endInArray []
      | depth + 1 => do
        let (_, r) ← readItems (skimValue depth) r.length true r
        return ((), r)
    | '{' :: r =>
      match depth with
      | 0 => stopBefore .endInObject []
      | depth + 1 => do
        let (_, r) ← readMembers skimString (fun _ => skimValue depth) r.length true r
        return ((), r)
    | c :: r => if c = '-' || c.isDigit then skimNumber (c :: r) else stopOn .expectedValue (c :: r)

/-- Passes over a value. -/
def skim : Reader Unit := fun s => skimValue s.length s

end ScopedCss.Json
