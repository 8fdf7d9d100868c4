import ScopedCss.Number.Rounding
import ScopedCss.OrderedMap

/-!
# Style objects

A style object is what an author writes: properties with values, and blocks of declarations nested
under a selector or an at-rule. It has two levels and no more. Both levels are ordered maps, so
writing a key again replaces its value where it stands.
-/

namespace ScopedCss

/-- The value of a property. -/
inductive StyleValue where
  /-- A text, taken over verbatim. -/
  | text (s : String)
  /-- A number, to which a unit may be added. -/
  | number (x : Binary64)
  /-- Nothing: the property is mentioned and not set. -/
  | null
  deriving DecidableEq

/-- A block of declarations: property names with values. -/
abbrev Declarations := OrderedMap String StyleValue

/-- What stands under a key of a style object. -/
inductive StyleEntry where
  /-- A value: the key is a property. -/
  | value (v : StyleValue)
  /-- A nested block: the key is a selector or an at-rule. -/
  | nested (d : Declarations)
  deriving DecidableEq

/-- A style object: keys with entries. -/
abbrev StyleObject := OrderedMap String StyleEntry

/-- Whether there is nothing to declare. -/
def StyleValue.isNull : StyleValue → Bool
  | .null => true
  | _ => false

/-- Whether an entry is a nested block. -/
def StyleEntry.isNested : StyleEntry → Bool
  | .nested _ => true
  | .value _ => false

/-- A block without the declarations whose value is null. -/
def Declarations.withoutNulls (d : Declarations) : Declarations :=
  d.filter fun _ v => !v.isNull

/-! ## Custom properties -/

/-- A custom property, to be declared in one place and referred to in others. -/
structure CssVariable where
  /-- The name, without the two dashes. -/
  name : String
  deriving DecidableEq

namespace CssVariable

/-- The key that declares the variable. -/
def property (v : CssVariable) : String := "--" ++ v.name

/-- The text that refers to the variable. -/
def reference (v : CssVariable) : String := "var(--" ++ v.name ++ ")"

/-- The reference as a value. -/
def toValue (v : CssVariable) : StyleValue := .text v.reference

end CssVariable

end ScopedCss
