/-!
# Rules

A rule is a complete rule of a style sheet, such as `.abc{color:red;}`. Nothing but its text
matters; the text is made by the compiler and judged by the sheet that takes it.
-/

namespace ScopedCss

/-- A complete rule of a style sheet. -/
structure StyleRule where
  /-- The text of the rule. -/
  text : String
  deriving DecidableEq

namespace StyleRule

/-- Whether the rule begins with an at-sign, as `@media` and `@supports` do. -/
def isAtRule (r : StyleRule) : Bool := r.text.toList.head? = some '@'

/-- How a rule is shown in a diagnostic. -/
def describe (r : StyleRule) : String := "StyleRule(" ++ r.text ++ ")"

end StyleRule

end ScopedCss
