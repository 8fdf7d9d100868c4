import ScopedCss.Number.Layout
import ScopedCss.Style.Value

/-!
# Values as text

A text is taken over as it is. A number is written with the fewest digits that determine it and
gets the unit `px`, unless it belongs to one of the properties that take a bare number.
-/

namespace ScopedCss

/-- The properties, in hyphenated spelling, whose numbers are written without a unit. -/
def unitlessProperties : List String :=
  ["animation-iteration-count", "border-image-outset", "border-image-slice", "border-image-width",
    "box-flex", "box-flex-group", "box-ordinal-group", "column-count", "columns", "flex",
    "flex-grow", "flex-positive", "flex-shrink", "flex-negative", "flex-order", "grid-row",
    "grid-row-end", "grid-row-span", "grid-row-start", "grid-column", "grid-column-end",
    "grid-column-span", "grid-column-start", "font-weight", "line-clamp", "line-height",
    "opacity", "order", "orphans", "tabSize", "widows", "z-index", "zoom", "fill-opacity",
    "flood-opacity", "stop-opacity", "stroke-dasharray", "stroke-dashoffset",
    "stroke-miterlimit", "stroke-opacity", "stroke-width"]

/-- Whether numbers of the property, in hyphenated spelling, are written without a unit. -/
def isUnitless (property : String) : Bool := unitlessProperties.contains property

/-- A number as it stands in a style sheet. Both zeros are `0`. -/
def renderNumber (x : Binary64) : String :=
  if x.isNaN then "NaN"
  else if x.isInfinite then (if x.negative then "-Infinity" else "Infinity")
  else if x.isZero then "0"
  else Layout.css.writeBinary64 x

/-- The value of a property in hyphenated spelling, as text; nothing for null. -/
def StyleValue.render (property : String) : StyleValue → Option String
  | .text s => some s
  | .number x => some (if isUnitless property then renderNumber x else renderNumber x ++ "px")
  | .null => none

end ScopedCss
