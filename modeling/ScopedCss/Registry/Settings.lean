import ScopedCss.Json.Skim
import ScopedCss.Registry.Basic
import ScopedCss.Toml.Read

/-!
# Settings

The configuration of a registry can be written as JSON or as TOML, usually as an object or table
with the member `mode`, and everything else in it is passed over. Without a `mode`, the default
applies, which is that of the debug profile (`RegistryConfig.mode`).

Two other forms are understood: an array whose first item is the mode, and for the mode itself,
instead of its name, an object or table whose only member has that name and is empty.
-/

namespace ScopedCss

/-- The mode with a name. -/
def InsertionMode.ofName? (name : String) : Option InsertionMode :=
  if name = InsertionMode.strict.name then some .strict
  else if name = InsertionMode.relaxed.name then some .relaxed
  else none

namespace RegistryConfig

/-- The configuration in which the given modes have been named. -/
def ofModes : List String → Option RegistryConfig
  | [] => some {}
  | [name] => do return ⟨← InsertionMode.ofName? name⟩
  | _ => none

/-- The configuration as a JSON document. -/
def toJson (c : RegistryConfig) : Json := .object [("mode", .string c.mode.name)]

/-! ## From JSON -/

section

open Json

/-- Reads the name of a mode. -/
def modeReader : Reader String := fun s =>
  match skipBlanks s with
  | '"' :: r => readString r
  | '{' :: r =>
    match skipBlanks r with
    | '"' :: r => do
      let (name, r) ← readString r
      let (_, r) ← readColon r
      match skipBlanks r with
      | 'n' :: r => do
        let (_, r) ← readWord ['u', 'l', 'l'] r
        match skipBlanks r with
        | '}' :: r => return (name, r)
        | r => stopOn .expectedValue r
      | r => stopOn .expectedValue r
    | r => stopOn .expectedValue r
  | r => stopOn .expectedValue r

/-- Reads the names of all modes that a configuration gives. -/
def modesReader : Reader (List String) := fun s =>
  match skipBlanks s with
  | '[' :: r => readItems modeReader r.length true r
  | '{' :: r => do
    let member (name : String) : Reader (Option String) := fun s =>
      if name = "mode" then do
        let (mode, s) ← modeReader s
        return (some mode, s)
      else do
        let (_, s) ← skim s
        return (none, s)
    let (members, r) ← readMembers readString member r.length true r
    return (members.filterMap Prod.snd, r)
  | r => stopOn .expectedValue r

/-- Reads a JSON text as a configuration. -/
def ofJsonText (text : String) : Option RegistryConfig :=
  (readAll modesReader text).toOption.bind ofModes

end

/-! ## From TOML -/

/-- Whether a value is an empty array or table. -/
def isVoid : Toml → Bool
  | .array items => items.isEmpty
  | .table _ members => members.isEmpty
  | _ => false

/-- The name of a mode in a value. -/
def modeName? : Toml → Option String
  | .text name => some name
  | .table _ [(name, v)] => if isVoid v then some name else none
  | _ => none

/-- The configuration whose mode is written as a value. -/
def ofModeValue (v : Toml) : Option RegistryConfig := do ofModes [← modeName? v]

/-- The configuration in a table. -/
def ofTable (members : Toml.Members) : Option RegistryConfig :=
  (Pairs.get? "mode" members).elim (some {}) ofModeValue

/-- The configuration in a value. A date has nothing in it that is called a mode. -/
def ofToml : Toml → Option RegistryConfig
  | .table _ members => ofTable members
  | .array items => items.head?.elim (some {}) ofModeValue
  | .tables earlier current => ofModeValue (.table .header (earlier.headD current))
  | .moment => some {}
  | .text _ | .plain => none

/-- Reads a TOML text as a configuration. -/
def ofTomlText (text : String) : Option RegistryConfig := do ofTable (← Toml.read text)

end RegistryConfig

end ScopedCss
