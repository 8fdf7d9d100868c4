import Mathlib.Data.Nat.Notation
import ScopedCss.Number.Binary64

/-!
# The parts of a word

A double is the word of its sign and its lower bits, and which kind of number it is can be read off the
lower bits.
-/

namespace ScopedCss.Binary64

variable {x : Binary64}

theorem magnitudeBits_lt (x : Binary64) : x.magnitudeBits < signUnit := Nat.mod_lt _ (by decide)

theorem field_lt (x : Binary64) : x.field < 2048 := by
  have hlt := magnitudeBits_lt x
  rw [field]
  unfold signUnit fieldUnit at *
  omega

theorem significand_lt (x : Binary64) : x.significand < 2 * fieldUnit := by
  have hlt : x.fraction < fieldUnit := Nat.mod_lt _ (by decide)
  rw [significand]
  unfold fieldUnit at *
  split
  · omega
  · omega

/-- A word is its sign and the other bits. -/
theorem ofMagnitude_magnitudeBits (x : Binary64) : ofMagnitude x.negative x.magnitudeBits = x := by
  have hword : (if x.negative then signUnit else 0) + x.magnitudeBits = x.bits.toNat := by
    have hlt := x.bits.toNat_lt
    rw [negative, magnitudeBits]
    unfold signUnit
    split
    · next h =>
      have hle := of_decide_eq_true h
      omega
    · next h =>
      have hgt := of_decide_eq_false (Bool.eq_false_iff.2 h)
      omega
  rw [ofMagnitude, hword, UInt64.ofNat_toNat]

theorem magnitudeBits_ofMagnitude (negative : Bool) {m : ℕ} (hm : m < signUnit) :
    (ofMagnitude negative m).magnitudeBits = m := by
  rw [magnitudeBits, ofMagnitude, UInt64.toNat_ofNat']
  unfold signUnit at *
  split
  · omega
  · omega

theorem magnitudeBits_ne_zero (h : x.isZero = false) : x.magnitudeBits ≠ 0 := of_decide_eq_false h

theorem lt_top_of_isFinite (h : x.isFinite = true) : x.magnitudeBits < topField * fieldUnit := by
  have hfield : x.magnitudeBits / fieldUnit < topField := of_decide_eq_true h
  unfold topField fieldUnit at *
  omega

theorem not_isNaN (h : x.isFinite = true) : ¬ x.isNaN = true := by
  have hfield : x.field < topField := of_decide_eq_true h
  intro hnan
  exact Nat.ne_of_lt hfield (of_decide_eq_true hnan).1

theorem not_isInfinite (h : x.isFinite = true) : ¬ x.isInfinite = true := by
  have hfield : x.field < topField := of_decide_eq_true h
  intro hinf
  exact Nat.ne_of_lt hfield (of_decide_eq_true hinf).1

theorem isFinite_of_isZero (h : x.isZero = true) : x.isFinite = true := by
  have hbits : x.magnitudeBits = 0 := of_decide_eq_true h
  rw [isFinite, field, hbits]
  decide

theorem eq_top_of_isInfinite (h : x.isInfinite = true) : x.magnitudeBits = topField * fieldUnit := by
  have hparts : x.magnitudeBits / fieldUnit = topField ∧ x.magnitudeBits % fieldUnit = 0 :=
    of_decide_eq_true h
  unfold topField fieldUnit at *
  omega

theorem isFinite_of_not (hnan : x.isNaN = false) (hinf : x.isInfinite = false) : x.isFinite = true := by
  have hfield : x.field < 2048 := field_lt x
  have hnan' := of_decide_eq_false hnan
  have hinf' := of_decide_eq_false hinf
  refine decide_eq_true ?_
  unfold topField at *
  omega

end ScopedCss.Binary64
