import ScopedCss.ClassName
import ScopedCss.Text.Utf16

/-!
# Content hashing

Names are computed from content, so equal content gets equal names and rule sets can be shared.
Two steps lead from a text to its name. `ContentHash.ofText` folds the UTF-16 units of the text,
last to first, into a 32-bit word: multiply by 33, then exclusive-or with the unit. `letterNumeral`
then writes the word with 52 letters as digits.

The numeral is not quite the usual one of base 52: a value of exactly 52 is not divided any more
and leaves the digit zero, so 0 and 52 are both written with the single letter of zero.
-/

namespace ScopedCss

/-! ## Letter numerals -/

/-- The letter of a digit below 52: lower case first, then upper case. -/
def digitLetter (d : Nat) : Char :=
  if d < 26 then Char.ofNat (97 + d) else Char.ofNat (65 + (d - 26))

/-- The digits of a number in base 52, most significant first. Division goes on while the rest is
above 52, and what remains is reduced once more, so 52 itself becomes the digit 0. -/
def letterDigits (x : Nat) : List Nat :=
  if 52 < x then letterDigits (x / 52) ++ [x % 52] else [x % 52]
termination_by x
decreasing_by omega

/-- A number written with letters as digits. -/
def letterNumeral (x : Nat) : String := String.ofList ((letterDigits x).map digitLetter)

theorem letterDigits_ne_nil (x : Nat) : letterDigits x ≠ [] := by
  rw [letterDigits]; split <;> simp

/-- The digits are digits of base 52, the special case of 52 included. -/
theorem letterDigits_lt (x : Nat) : ∀ d ∈ letterDigits x, d < 52 := by
  induction x using letterDigits.induct with
  | case1 x h ih =>
    rw [letterDigits, if_pos h]
    intro d hd
    rcases List.mem_append.1 hd with hd | hd
    · exact ih d hd
    · have : d = x % 52 := by simpa using hd
      omega
  | case2 x h =>
    rw [letterDigits, if_neg h]
    intro d hd
    have : d = x % 52 := by simpa using hd
    omega

theorem isAlpha_digitLetter : ∀ d < 52, (digitLetter d).isAlpha = true := by decide

/-- Whatever the number, its numeral is a class name. -/
theorem isClassText_letterNumeral (x : Nat) : IsClassText (letterNumeral x) := by
  refine ⟨fun h => ?_, ?_⟩
  · have h := congrArg String.toList h
    simp [letterNumeral, letterDigits_ne_nil] at h
  · simp only [letterNumeral, String.toList_ofList, List.mem_map]
    rintro c ⟨d, hd, rfl⟩
    exact isAlpha_digitLetter d (letterDigits_lt x d hd)

/-! ## The hash -/

/-- A hash function on texts, determined by the word it starts from. -/
structure ContentHash where
  /-- The word before anything has been folded in. -/
  seed : UInt32
  deriving DecidableEq

namespace ContentHash

/-- The hash used for class names unless another seed is asked for. -/
def standard : ContentHash := ⟨5381⟩

instance : Inhabited ContentHash := ⟨standard⟩

/-- Folds one code unit into the hash of what follows it. -/
def step (unit : UInt16) (h : UInt32) : UInt32 := (h * 33) ^^^ unit.toUInt32

/-- The hash of a text: its code units folded from last to first. -/
def ofText (h : ContentHash) (t : String) : UInt32 := (Text.units16 t).foldr step h.seed

/-- The class name of a text. -/
def identifier (h : ContentHash) (t : String) : ClassName :=
  ⟨letterNumeral (h.ofText t).toNat, isClassText_letterNumeral _⟩

end ContentHash

end ScopedCss
