import Mathlib.Algebra.Order.Field.Power
import Mathlib.Tactic.Linarith
import Mathlib.Tactic.NormNum
import Mathlib.Tactic.Ring
import ScopedCss.Number.Rounding
import ScopedCss.Proofs.Number.Neighbours
import ScopedCss.Proofs.Number.Powers

/-!
# The double nearest to a quotient

A quotient is rounded to the word whose edges it lies between. The word is put together from the exponent
of the unit and the count of units; where the count is carried to the next power of two, the sum is the
right word all the same (`ofWord_join`).
-/

namespace ScopedCss

variable {num den : ℕ}

/-! ## Rounding a quotient to an integer -/

/-- The rounded quotient is at most half a unit away on either side, and where it is exactly half a
unit away it is even. Stated without division, so that it can be checked case by case. -/
theorem roundHalfEven_bounds (hden : den ≠ 0) :
    (2 * num < (2 * roundHalfEven num den + 1) * den ∨
      2 * num = (2 * roundHalfEven num den + 1) * den ∧ roundHalfEven num den % 2 = 0) ∧
    (2 * roundHalfEven num den * den < 2 * num + den ∨
      2 * roundHalfEven num den * den = 2 * num + den ∧ roundHalfEven num den % 2 = 0) := by
  have hdiv := Nat.div_add_mod num den
  have hmod := Nat.mod_lt num (Nat.pos_of_ne_zero hden)
  simp only [roundHalfEven]
  split_ifs
  all_goals
    ring_nf at *
    omega

theorem roundHalfEven_above (hden : den ≠ 0) :
    (num / den : ℚ) < roundHalfEven num den + 1 / 2 ∨
      (num / den : ℚ) = roundHalfEven num den + 1 / 2 ∧ roundHalfEven num den % 2 = 0 := by
  have hden' : (0 : ℚ) < den := by exact_mod_cast Nat.pos_of_ne_zero hden
  rw [div_lt_iff₀ hden', div_eq_iff hden'.ne']
  refine (roundHalfEven_bounds hden).1.imp (fun h => ?_) (fun h => ⟨?_, h.2⟩)
  · have hcast : (2 * num : ℚ) < (2 * roundHalfEven num den + 1) * den := by exact_mod_cast h
    linarith
  · have hcast : (2 * num : ℚ) = (2 * roundHalfEven num den + 1) * den := by exact_mod_cast h.1
    linarith

theorem roundHalfEven_below (hden : den ≠ 0) :
    (roundHalfEven num den - 1 / 2 : ℚ) < num / den ∨
      (roundHalfEven num den - 1 / 2 : ℚ) = num / den ∧ roundHalfEven num den % 2 = 0 := by
  have hden' : (0 : ℚ) < den := by exact_mod_cast Nat.pos_of_ne_zero hden
  rw [lt_div_iff₀ hden', eq_div_iff hden'.ne']
  refine (roundHalfEven_bounds hden).2.imp (fun h => ?_) (fun h => ⟨?_, h.2⟩)
  · have hcast : (2 * roundHalfEven num den * den : ℚ) < 2 * num + den := by exact_mod_cast h
    linarith
  · have hcast : (2 * roundHalfEven num den * den : ℚ) = 2 * num + den := by exact_mod_cast h.1
    linarith

namespace Binary64

/-! ## Words put together -/

/-- The unit of the words with the exponent `e` above the least one. -/
def unit (e : ℕ) : ℚ := 2 ^ (e - 1074 : ℤ)

theorem unit_pos (e : ℕ) : 0 < unit e := zpow_pos (by norm_num) _

variable {e s : ℕ}

theorem ulp_join (h : e = 0 ∨ fieldUnit ≤ s) (hs : s < 2 * fieldUnit) :
    ulp (e * fieldUnit + s) = unit e := by
  have hfield : max ((e * fieldUnit + s) / fieldUnit) 1 = e + 1 := by
    unfold fieldUnit at *
    omega
  rw [ulp, unit, hfield]
  congr 1
  push_cast
  ring

theorem ofWord_join_of_lt (h : e = 0 ∨ fieldUnit ≤ s) (hs : s < 2 * fieldUnit) :
    ofWord (e * fieldUnit + s) = s * unit e := by
  rw [ofWord, ulp_join h hs]
  congr 2
  unfold fieldUnit at *
  split
  · omega
  · omega

/-- The word put together from exponent and count has the magnitude that these say, also where the
count has carried into the exponent field. -/
theorem ofWord_join (h : e = 0 ∨ fieldUnit ≤ s) (hs : s ≤ 2 * fieldUnit) :
    ofWord (e * fieldUnit + s) = s * unit e := by
  rcases hs.lt_or_eq with hlt | rfl
  · exact ofWord_join_of_lt h hlt
  · have hword : e * fieldUnit + 2 * fieldUnit = e * fieldUnit + (2 * fieldUnit - 1) + 1 := by
      unfold fieldUnit
      omega
    have hlast : fieldUnit ≤ 2 * fieldUnit - 1 := by decide
    have hlt : 2 * fieldUnit - 1 < 2 * fieldUnit := by decide
    rw [hword, ofWord_succ, ulp_join (.inr hlast) hlt, ofWord_join_of_lt (.inr hlast) hlt,
      Nat.cast_sub (by decide)]
    push_cast
    ring

/-- The conditions on the count `s` of units to be the nearest, half a unit going to the even count. -/
structure NearestCount (q : ℚ) (e s : ℕ) : Prop where
  least : e = 0 ∨ fieldUnit * unit e ≤ q
  greatest : q < 2 * fieldUnit * unit e
  above : q < (s + 1 / 2) * unit e ∨ q = (s + 1 / 2) * unit e ∧ s % 2 = 0
  below : (s - 1 / 2) * unit e < q ∨ (s - 1 / 2) * unit e = q ∧ s % 2 = 0

variable {q : ℚ}

/-- If the number has 53 digits before the point, so has the count. -/
theorem NearestCount.least_le (h : NearestCount q e s) : e = 0 ∨ fieldUnit ≤ s := by
  refine h.least.imp_right fun hq => ?_
  have hle : q ≤ (s + 1 / 2) * unit e := by
    rcases h.above with h | h
    · exact h.le
    · exact h.1.le
  have hcast : (fieldUnit : ℚ) ≤ s + 1 / 2 := le_of_mul_le_mul_right (hq.trans hle) (unit_pos e)
  have hlt : (fieldUnit : ℚ) < s + 1 := by linarith
  exact Nat.lt_succ_iff.1 (by exact_mod_cast hlt)

/-- The count is not above the next power of two; it is equal to it after a carry. -/
theorem NearestCount.le_greatest (h : NearestCount q e s) : s ≤ 2 * fieldUnit := by
  have hle : (s - 1 / 2) * unit e ≤ q := by
    rcases h.below with h | h
    · exact h.le
    · exact h.1.le
  have hcast : (s - 1 / 2 : ℚ) < 2 * fieldUnit :=
    lt_of_mul_lt_mul_right (hle.trans_lt h.greatest) (unit_pos e).le
  have hlt : (s : ℚ) < 2 * fieldUnit + 1 := by linarith
  exact Nat.lt_succ_iff.1 (by exact_mod_cast hlt)

theorem join_mod_two : (e * fieldUnit + s) % 2 = s % 2 := by
  unfold fieldUnit
  omega

/-- The number is not above the upper edge of the word. -/
theorem NearestCount.below_join (h : NearestCount q e s) : Below q (e * fieldUnit + s) := by
  rcases h.le_greatest.lt_or_eq with hlt | rfl
  · have hedge : edge (e * fieldUnit + s) = (s + 1 / 2) * unit e := by
      rw [edge, ofWord_join h.least_le hlt.le, ulp_join h.least_le hlt]
      ring
    rw [Below, hedge, join_mod_two]
    exact h.above
  · -- After a carry the next edge is a whole unit away, and the number is not even above the word.
    have hword : ofWord (e * fieldUnit + 2 * fieldUnit) = 2 * fieldUnit * unit e := by
      rw [ofWord_join h.least_le h.le_greatest]
      push_cast
      rfl
    refine .inl (lt_trans ?_ (ofWord_lt_edge _))
    rw [hword]
    exact h.greatest

/-- The number is above the edge below the word. -/
theorem NearestCount.not_below_join {n : ℕ} (h : NearestCount q e s) (hn : e * fieldUnit + s = n + 1) :
    ¬ Below q n := by
  rw [not_below_iff]
  by_cases hfirst : e ≠ 0 ∧ s = fieldUnit
  · -- The word below has a smaller exponent, so its edge is nearer; the number is not below the word.
    obtain ⟨he, rfl⟩ := hfirst
    refine .inl ?_
    calc edge n < ofWord (n + 1) := edge_lt_ofWord n
      _ = fieldUnit * unit e := by rw [← hn, ofWord_join h.least_le h.le_greatest]
      _ ≤ q := h.least.resolve_left he
  · have hs : e = 0 ∨ fieldUnit ≤ s - 1 := by
      have hle := h.least_le
      omega
    have hpos : 1 ≤ s := by
      rcases hs with rfl | hs
      · omega
      · unfold fieldUnit at hs
        omega
    have hn' : n = e * fieldUnit + (s - 1) := by omega
    have hlt : s - 1 < 2 * fieldUnit := by
      have hle := h.le_greatest
      omega
    have hedge : edge n = (s - 1 / 2) * unit e := by
      rw [hn', edge, ofWord_join hs hlt.le, ulp_join hs hlt, Nat.cast_sub hpos]
      push_cast
      ring
    have hparity : n % 2 = 1 ↔ s % 2 = 0 := by
      rw [hn', join_mod_two]
      omega
    rw [hedge, hparity]
    exact h.below

/-- The number is rounded to the word put together from the exponent and the nearest count. -/
theorem NearestCount.roundsTo (h : NearestCount q e s) : RoundsTo q (e * fieldUnit + s) := by
  rcases Nat.eq_zero_or_eq_succ_pred (e * fieldUnit + s) with hzero | hsucc
  · have hbelow := h.below_join
    rw [hzero] at hbelow ⊢
    exact ⟨hbelow, fun n hn => absurd hn (Nat.not_lt_zero n)⟩
  · have hbelow := h.below_join
    rw [hsucc] at hbelow ⊢
    exact roundsTo_succ_iff.2 ⟨hbelow, h.not_below_join hsucc⟩

/-! ## The word of a quotient -/

theorem scaled_eq (hden : den ≠ 0) (k : ℤ) :
    (num / den : ℚ) = (num * twoPow (-k) : ℕ) / (den * twoPow k : ℕ) * 2 ^ k := by
  have hden' : (den : ℚ) ≠ 0 := by exact_mod_cast hden
  have hpow : (twoPow (-k) : ℚ) ≠ 0 := by exact_mod_cast (twoPow_pos _).ne'
  push_cast
  rw [twoPow_eq k]
  field_simp

theorem scaled_lt_iff (hden : den ≠ 0) (k : ℤ) :
    num * twoPow (-k) < den * twoPow k ↔ (num / den : ℚ) < 2 ^ k := by
  have hpos : (0 : ℚ) < (den * twoPow k : ℕ) := by
    exact_mod_cast Nat.mul_pos (Nat.pos_of_ne_zero hden) (twoPow_pos k)
  rw [scaled_eq hden k, mul_lt_iff_lt_one_left (by positivity), div_lt_one hpos]
  exact Nat.cast_lt.symm

/-- The leading exponent, found from the lengths of numerator and denominator and one comparison, is
that of the quotient. -/
theorem leadingExponent_spec (hnum : num ≠ 0) (hden : den ≠ 0) :
    (2 : ℚ) ^ leadingExponent num den ≤ num / den ∧
      (num / den : ℚ) < 2 ^ (leadingExponent num den + 1) := by
  have hden' : (0 : ℚ) < den := by exact_mod_cast Nat.pos_of_ne_zero hden
  have hnumLog : (2 : ℚ) ^ num.log2 ≤ num ∧ (num : ℚ) < 2 ^ (num.log2 + 1) :=
    ⟨by exact_mod_cast Nat.log2_self_le hnum, by exact_mod_cast Nat.lt_log2_self⟩
  have hdenLog : (2 : ℚ) ^ den.log2 ≤ den ∧ (den : ℚ) < 2 ^ (den.log2 + 1) :=
    ⟨by exact_mod_cast Nat.log2_self_le hden, by exact_mod_cast Nat.lt_log2_self⟩
  have hlower : (2 : ℚ) ^ ((num.log2 : ℤ) - den.log2 - 1) ≤ num / den := by
    rw [le_div_iff₀ hden']
    calc (2 : ℚ) ^ ((num.log2 : ℤ) - den.log2 - 1) * den
        ≤ 2 ^ ((num.log2 : ℤ) - den.log2 - 1) * 2 ^ (den.log2 + 1) := by gcongr; exact hdenLog.2.le
      _ = 2 ^ num.log2 := by
        rw [← zpow_natCast, ← zpow_natCast, ← zpow_add₀ (by norm_num)]
        congr 1
        push_cast
        ring
      _ ≤ num := hnumLog.1
  have hupper : (num / den : ℚ) < 2 ^ ((num.log2 : ℤ) - den.log2 + 1) := by
    rw [div_lt_iff₀ hden']
    calc (num : ℚ) < 2 ^ (num.log2 + 1) := hnumLog.2
      _ = 2 ^ ((num.log2 : ℤ) - den.log2 + 1) * 2 ^ den.log2 := by
        rw [← zpow_natCast, ← zpow_natCast, ← zpow_add₀ (by norm_num)]
        congr 1
        push_cast
        ring
      _ ≤ 2 ^ ((num.log2 : ℤ) - den.log2 + 1) * den := by gcongr; exact hdenLog.1
  simp only [leadingExponent]
  split
  · next hlt => exact ⟨hlower, by simpa using (scaled_lt_iff hden _).1 hlt⟩
  · next hge => exact ⟨not_lt.1 fun h => hge ((scaled_lt_iff hden _).2 h), hupper⟩

/-- The exponent of the unit that a quotient is counted in: 53 binary digits are before the point, or fewer
at the least exponent. -/
def unitScale (num den : ℕ) : ℤ := max (leadingExponent num den - 52) (-1074)

/-- The exponent of the unit, above the least one. -/
def unitExponent (num den : ℕ) : ℕ := (unitScale num den + 1074).toNat

/-- The nearest count of units. -/
def unitCount (num den : ℕ) : ℕ :=
  roundHalfEven (num * twoPow (-unitScale num den)) (den * twoPow (unitScale num den))

theorem unit_unitExponent (num den : ℕ) : unit (unitExponent num den) = 2 ^ unitScale num den := by
  have hleast : -1074 ≤ unitScale num den := le_max_right _ _
  rw [unit, unitExponent]
  congr 1
  omega

theorem nearestMagnitude_eq (hnum : num ≠ 0) : nearestMagnitude num den =
    min (unitExponent num den * fieldUnit + unitCount num den) (topField * fieldUnit) :=
  if_neg hnum

/-- Exponent and count, as they are computed, are the ones that the quotient asks for. -/
theorem nearestCount_quotient (hnum : num ≠ 0) (hden : den ≠ 0) :
    NearestCount (num / den) (unitExponent num den) (unitCount num den) := by
  obtain ⟨hlower, hupper⟩ := leadingExponent_spec hnum hden
  have hscaled : den * twoPow (unitScale num den) ≠ 0 := Nat.mul_ne_zero hden (twoPow_pos _).ne'
  have hpow : (0 : ℚ) < 2 ^ unitScale num den := by positivity
  constructor
  · rcases le_total (leadingExponent num den - 52) (-1074) with hle | hge
    · refine .inl ?_
      rw [unitExponent, unitScale, max_eq_right hle]
      rfl
    · refine .inr ?_
      rw [unit_unitExponent, unitScale, max_eq_left hge]
      calc (fieldUnit : ℚ) * 2 ^ (leadingExponent num den - 52)
          = 2 ^ (52 : ℤ) * 2 ^ (leadingExponent num den - 52) := by norm_num [fieldUnit]
        _ = 2 ^ leadingExponent num den := by
          rw [← zpow_add₀ (by norm_num)]
          congr 1
          ring
        _ ≤ num / den := hlower
  · have hle : leadingExponent num den - 52 ≤ unitScale num den := le_max_left _ _
    rw [unit_unitExponent]
    calc (num / den : ℚ) < 2 ^ (leadingExponent num den + 1) := hupper
      _ ≤ 2 ^ (53 + unitScale num den) := zpow_le_zpow_right₀ (by norm_num) (by omega)
      _ = 2 * fieldUnit * 2 ^ unitScale num den := by
        rw [zpow_add₀ (by norm_num)]
        norm_num [fieldUnit]
  · rw [unit_unitExponent, scaled_eq hden (unitScale num den), mul_lt_mul_iff_left₀ hpow,
      mul_left_inj' hpow.ne']
    exact roundHalfEven_above hscaled
  · rw [unit_unitExponent, scaled_eq hden (unitScale num den), mul_lt_mul_iff_left₀ hpow,
      mul_left_inj' hpow.ne']
    exact roundHalfEven_below hscaled

/-- Short of an infinity, rounding finds the word that the quotient lies nearest to. -/
theorem nearestMagnitude_eq_iff {m : ℕ} (hden : den ≠ 0) (hm : m < topField * fieldUnit) :
    nearestMagnitude num den = m ↔ RoundsTo (num / den) m := by
  rcases eq_or_ne num 0 with rfl | hnum
  · have hzero : RoundsTo (((0 : ℕ) : ℚ) / den) 0 := by
      rw [Nat.cast_zero, zero_div, ← ofWord_zero]
      exact roundsTo_ofWord 0
    constructor
    · rintro rfl
      exact hzero
    · intro h
      exact hzero.unique h
  · have hround := (nearestCount_quotient hnum hden).roundsTo
    rw [nearestMagnitude_eq hnum]
    constructor
    · intro h
      have hword : unitExponent num den * fieldUnit + unitCount num den = m := by omega
      rwa [hword] at hround
    · intro h
      rw [hround.unique h, min_eq_left hm.le]

end Binary64

end ScopedCss
