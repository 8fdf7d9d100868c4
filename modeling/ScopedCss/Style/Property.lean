import ScopedCss.OrderedMap

/-!
# Property names

Style objects name properties in the script spelling (`backgroundColor`), style sheets in the
hyphenated one (`background-color`). `hyphenate` goes from the first to the second: a dash before
every ASCII capital, which becomes small. The vendor spelling `msTransform` has no capital at the
front, unlike those of all other vendors, so the leading dash is added to it.

`PropertyNames` remembers the names that have been hyphenated. It never changes an answer; it only
counts the distinct names asked for.
-/

namespace ScopedCss

/-- A character in the hyphenated spelling. -/
def hyphenateChar (c : Char) : List Char := if c.isUpper then ['-', c.toLower] else [c]

/-- The characters of a name in the hyphenated spelling. -/
def hyphenateChars (cs : List Char) : List Char :=
  let spelled := cs.flatMap hyphenateChar
  if ['m', 's', '-'].isPrefixOf spelled then '-' :: spelled else spelled

/-- A property name in the hyphenated spelling. -/
def hyphenate (name : String) : String := String.ofList (hyphenateChars name.toList)

/-- The names hyphenated so far, each with its hyphenated spelling. -/
abbrev PropertyNames := OrderedMap String String

namespace PropertyNames

/-- The hyphenated spelling of a name, taken from memory or worked out and remembered. -/
def hyphenate (names : PropertyNames) (name : String) : String × PropertyNames :=
  match names.get? name with
  | some spelled => (spelled, names)
  | none => (ScopedCss.hyphenate name, names.set name (ScopedCss.hyphenate name))

end PropertyNames

end ScopedCss
