import Mathlib.Algebra.Order.Field.Basic
import Mathlib.Algebra.Order.Field.Power
import Mathlib.Data.Rat.Cast.Order
import Mathlib.Tactic.FieldSimp
import Mathlib.Tactic.Linarith
import Mathlib.Tactic.Ring
import ScopedCss.Number.Binary64

/-!
# Doubles and their neighbours

The words of the doubles that are not negative are numbered through, and the larger word has the larger
magnitude, from zero over the subnormal numbers to the top. Half way between a word and the next one is
the edge between the numbers that are rounded to the one and to the other; the edge itself goes to the
even word. So the intervals between the edges cover the positive numbers without a gap, and no number
is rounded to two words (`RoundsTo.unique`).
-/

namespace ScopedCss.Binary64

/-- The magnitude of a finite double. -/
def magnitude (x : Binary64) : ℚ := x.significand * 2 ^ x.exponent

/-! ## Magnitudes of words -/

/-- The distance from a word to the next one. -/
def ulp (m : ℕ) : ℚ := 2 ^ ((max (m / fieldUnit) 1 : ℕ) - 1075 : ℤ)

/-- The magnitude of the double with the given word. -/
def ofWord (m : ℕ) : ℚ :=
  (if m / fieldUnit = 0 then m % fieldUnit else fieldUnit + m % fieldUnit : ℕ) * ulp m

theorem magnitude_eq (x : Binary64) : x.magnitude = ofWord x.magnitudeBits := rfl

theorem ulp_pos (m : ℕ) : 0 < ulp m := zpow_pos (by norm_num) _

theorem ulp_congr {m n : ℕ} (h : max (m / fieldUnit) 1 = max (n / fieldUnit) 1) : ulp m = ulp n := by
  rw [ulp, ulp, h]

/-- Where the exponent field is counted up, the distance doubles. -/
theorem ulp_double {m n : ℕ} (hm : 1 ≤ m / fieldUnit) (hn : n / fieldUnit = m / fieldUnit + 1) :
    ulp n = 2 * ulp m := by
  have hexp : ((max (n / fieldUnit) 1 : ℕ) - 1075 : ℤ) = 1 + ((max (m / fieldUnit) 1 : ℕ) - 1075) := by
    omega
  rw [ulp, ulp, hexp, zpow_add₀ (by norm_num), zpow_one]

/-- The next word is one unit further, also where the exponent changes. -/
theorem ofWord_succ (m : ℕ) : ofWord (m + 1) = ofWord m + ulp m := by
  rw [ofWord, ofWord]
  by_cases hcarry : m % fieldUnit + 1 < fieldUnit
  · have hfield : (m + 1) / fieldUnit = m / fieldUnit := by
      unfold fieldUnit at *
      omega
    have hfraction : (m + 1) % fieldUnit = m % fieldUnit + 1 := by
      unfold fieldUnit at *
      omega
    have hulp : ulp (m + 1) = ulp m := ulp_congr (by rw [hfield])
    rw [hulp, hfield, hfraction]
    split
    · push_cast
      ring
    · push_cast
      ring
  · have hfield : (m + 1) / fieldUnit = m / fieldUnit + 1 := by
      unfold fieldUnit at *
      omega
    have hfraction : (m + 1) % fieldUnit = 0 := by
      unfold fieldUnit at *
      omega
    have hlast : ((m % fieldUnit : ℕ) : ℚ) + 1 = fieldUnit := by
      have h : m % fieldUnit + 1 = fieldUnit := by
        unfold fieldUnit at *
        omega
      exact_mod_cast h
    have hne : (m + 1) / fieldUnit ≠ 0 := by
      rw [hfield]
      exact Nat.succ_ne_zero _
    rw [if_neg hne, hfraction]
    by_cases hzero : m / fieldUnit = 0
    · -- From the last subnormal word to the first normal one the exponent stays.
      have hulp : ulp (m + 1) = ulp m := ulp_congr (by rw [hfield, hzero]; rfl)
      rw [if_pos hzero, hulp, Nat.add_zero, ← hlast]
      ring
    · rw [if_neg hzero, ulp_double (Nat.one_le_iff_ne_zero.2 hzero) hfield]
      push_cast
      rw [← hlast]
      ring

theorem strictMono_ofWord : StrictMono ofWord := by
  refine strictMono_nat_of_lt_succ fun m => ?_
  rw [ofWord_succ]
  exact lt_add_of_pos_right _ (ulp_pos m)

theorem ofWord_zero : ofWord 0 = 0 := by
  simp [ofWord]

/-! ## Edges -/

/-- The number half way between a word and the next one. -/
def edge (m : ℕ) : ℚ := ofWord m + ulp m / 2

theorem ofWord_lt_edge (m : ℕ) : ofWord m < edge m := lt_add_of_pos_right _ (half_pos (ulp_pos m))

theorem edge_lt_ofWord (m : ℕ) : edge m < ofWord (m + 1) := by
  rw [edge, ofWord_succ]
  exact add_lt_add_right (half_lt_self (ulp_pos m)) _

theorem strictMono_edge : StrictMono edge := by
  exact strictMono_nat_of_lt_succ fun m => (edge_lt_ofWord m).trans (ofWord_lt_edge (m + 1))

/-- The number is rounded to the word `m` or to a smaller one: it is below the edge above `m`, or on that
edge while `m` is even. -/
def Below (q : ℚ) (m : ℕ) : Prop := q < edge m ∨ q = edge m ∧ m % 2 = 0

theorem Below.le {q : ℚ} {m : ℕ} (h : Below q m) : q ≤ edge m := by
  rcases h with h | h
  · exact h.le
  · exact h.1.le

theorem Below.of_le {p q : ℚ} {m : ℕ} (h : Below q m) (hle : p ≤ q) : Below p m := by
  rcases hle.lt_or_eq with hlt | rfl
  · exact .inl (hlt.trans_le h.le)
  · exact h

theorem Below.mono {q : ℚ} {m n : ℕ} (h : Below q m) (hle : m ≤ n) : Below q n := by
  rcases hle.lt_or_eq with hlt | rfl
  · exact .inl (h.le.trans_lt (strictMono_edge hlt))
  · exact h

theorem not_below_iff {q : ℚ} {m : ℕ} : ¬ Below q m ↔ edge m < q ∨ edge m = q ∧ m % 2 = 1 := by
  rw [Below]
  rcases lt_trichotomy q (edge m) with h | rfl | h
  · simp [h, h.ne', not_lt.2 h.le]
  · simp
  · simp [h, h.ne', h.ne, not_lt.2 h.le]

/-- The word that the number is rounded to is the least that it is not above of. -/
def RoundsTo (q : ℚ) (m : ℕ) : Prop := Below q m ∧ ∀ n < m, ¬ Below q n

theorem RoundsTo.unique {q : ℚ} {m n : ℕ} (hm : RoundsTo q m) (hn : RoundsTo q n) : m = n := by
  rcases lt_trichotomy m n with h | h | h
  · exact absurd hm.1 (hn.2 m h)
  · exact h
  · exact absurd hn.1 (hm.2 n h)

/-- What lies between two numbers that are rounded to a word is rounded to it as well. -/
theorem RoundsTo.between {p q r : ℚ} {m : ℕ} (hp : RoundsTo p m) (hr : RoundsTo r m) (hpq : p ≤ q)
    (hqr : q ≤ r) : RoundsTo q m :=
  ⟨hr.1.of_le hqr, fun n hn hq => hp.2 n hn (hq.of_le hpq)⟩

/-- Only the edge below the word and the edge above it matter. -/
theorem roundsTo_succ_iff {q : ℚ} {m : ℕ} :
    RoundsTo q (m + 1) ↔ Below q (m + 1) ∧ ¬ Below q m := by
  constructor
  · intro h
    exact ⟨h.1, h.2 m (Nat.lt_succ_self m)⟩
  · intro h
    exact ⟨h.1, fun n hn hq => h.2 (hq.mono (Nat.lt_succ_iff.1 hn))⟩

theorem roundsTo_iff_of_even {q : ℚ} {m : ℕ} (heven : (m + 1) % 2 = 0) :
    RoundsTo q (m + 1) ↔ edge m ≤ q ∧ q ≤ edge (m + 1) := by
  have hodd : m % 2 = 1 := by omega
  rw [roundsTo_succ_iff, not_below_iff, Below]
  simp only [heven, hodd, and_true, le_iff_lt_or_eq]
  exact and_comm

theorem roundsTo_iff_of_odd {q : ℚ} {m : ℕ} (hodd : (m + 1) % 2 ≠ 0) :
    RoundsTo q (m + 1) ↔ edge m < q ∧ q < edge (m + 1) := by
  have heven : m % 2 ≠ 1 := by omega
  rw [roundsTo_succ_iff, not_below_iff, Below]
  simp only [heven, hodd, and_false, or_false]
  exact and_comm

theorem RoundsTo.edge_le {q : ℚ} {m : ℕ} (h : RoundsTo q (m + 1)) : edge m ≤ q := by
  rcases not_below_iff.1 (roundsTo_succ_iff.1 h).2 with h | h
  · exact h.le
  · exact h.1.le

theorem RoundsTo.le_edge {q : ℚ} {m : ℕ} (h : RoundsTo q m) : q ≤ edge m := h.1.le

theorem roundsTo_ofWord (m : ℕ) : RoundsTo (ofWord m) m := by
  refine ⟨.inl (ofWord_lt_edge m), fun n hn h => ?_⟩
  have hlt : edge n < ofWord m := (edge_lt_ofWord n).trans_le (strictMono_ofWord.monotone hn)
  exact absurd h.le (not_le.2 hlt)

theorem RoundsTo.pos {q : ℚ} {m : ℕ} (h : RoundsTo q m) (hm : m ≠ 0) : 0 < q := by
  obtain ⟨n, rfl⟩ := Nat.exists_eq_succ_of_ne_zero hm
  calc 0 = ofWord 0 := ofWord_zero.symm
    _ ≤ ofWord n := strictMono_ofWord.monotone (Nat.zero_le _)
    _ < edge n := ofWord_lt_edge _
    _ ≤ q := h.edge_le

end ScopedCss.Binary64
