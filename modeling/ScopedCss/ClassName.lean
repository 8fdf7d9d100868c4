import ScopedCss.Text.Quoted

/-!
# Class names

A class name is one or more ASCII letters. Such a token goes into a selector without escaping and
never contains the blank that separates the names of a class list. The restriction is part of the
type, so a function that returns a `ClassName` has shown that what it made is one.
-/

namespace ScopedCss

/-- Whether a text is one or more ASCII letters. -/
def IsClassText (t : String) : Prop := t ≠ "" ∧ ∀ c ∈ t.toList, c.isAlpha = true

instance : DecidablePred IsClassText := fun t =>
  haveI : Decidable (∀ c ∈ t.toList, c.isAlpha = true) := List.decidableBAll _ _
  inferInstanceAs (Decidable (t ≠ "" ∧ ∀ c ∈ t.toList, c.isAlpha = true))

/-- A name for a class: one or more ASCII letters. -/
structure ClassName where
  /-- The letters. -/
  text : String
  /-- There is at least one, and nothing else. -/
  isClassText : IsClassText text
  deriving DecidableEq

namespace ClassName

/-- Why a text is refused as a class name. -/
structure Invalid where
  /-- The refused text. -/
  text : String
  deriving DecidableEq

/-- The message for a refused text. -/
def Invalid.message (e : Invalid) : String :=
  "invalid class name " ++ Text.quote e.text ++ ": expected one or more ASCII letters"

/-- Reads a class name, refusing every text that is not one. -/
def ofText (t : String) : Except Invalid ClassName :=
  if h : IsClassText t then .ok ⟨t, h⟩ else .error ⟨t⟩

/-- The selector that matches the class. -/
def selector (n : ClassName) : String := "." ++ n.text

/-- How a class name is shown in a diagnostic. -/
def describe (n : ClassName) : String := "ClassName(" ++ n.text ++ ")"

theorem ofText_text (n : ClassName) : ofText n.text = .ok n := by
  simp [ofText, n.isClassText]

end ClassName

/-! ## Class lists -/

/-- Joins names by single blanks, skipping missing and empty ones. -/
def joinClassNames (names : List (Option String)) : String :=
  " ".intercalate (names.filterMap fun n => n.filter fun t => decide (t ≠ ""))

end ScopedCss
