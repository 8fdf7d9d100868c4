import Mathlib.Tactic.NormNum
import ScopedCss.Number.Shortest
import ScopedCss.Proofs.Number.Neighbours
import ScopedCss.Proofs.Number.Powers
import ScopedCss.Proofs.Number.Words

/-!
# The shortest decimal that tells a double

The interval of a double is compared with decimal grids in exact integers. Divided by what both sides are
multiplied with, the ends of the interval are the two edges of the word, so a grid point is in the interval
exactly if it is rounded to the word (`contains_iff`). The point returned is in the interval, and no coarser
grid has a point there.
-/

namespace ScopedCss

/-- The number that a decimal stands for. -/
def Decimal.value (d : Decimal) : ℚ := d.digits * 10 ^ d.scale

theorem Decimal.value_pow (k : ℤ) : (Decimal.mk 1 k).value = 10 ^ k := by
  rw [value, Nat.cast_one, one_mul]

theorem Decimal.value_lt_iff (d : Decimal) (n : ℕ) : d.value < 10 ^ (n + d.scale : ℤ) ↔ d.digits < 10 ^ n := by
  rw [value, zpow_add₀ (by norm_num), mul_lt_mul_iff_left₀ (by positivity), zpow_natCast]
  exact_mod_cast Iff.rfl

theorem Decimal.pow_scale_le_value {d : Decimal} (hd : d.digits ≠ 0) : 10 ^ d.scale ≤ d.value :=
  le_mul_of_one_le_left (by positivity) (by exact_mod_cast Nat.one_le_iff_ne_zero.2 hd)

theorem Binary64.RoundsTo.digits_ne_zero {d : Decimal} {m : ℕ} (h : RoundsTo d.value m) (hm : m ≠ 0) :
    d.digits ≠ 0 := by
  intro hzero
  have hpos := h.pos hm
  simp [Decimal.value, hzero] at hpos

namespace RoundingInterval

open Binary64

variable {x : Binary64}

/-! ## Units and grid points -/

/-- What units and grid points are both multiplied with when they are compared. -/
def common (w : RoundingInterval) (k : ℤ) : ℚ := twoPow (-w.unit) * tenPow (-k)

theorem common_pos (w : RoundingInterval) (k : ℤ) : 0 < w.common k := by
  have h₁ : (0 : ℚ) < twoPow (-w.unit) := by exact_mod_cast twoPow_pos _
  have h₂ : (0 : ℚ) < tenPow (-k) := by exact_mod_cast tenPow_pos _
  exact mul_pos h₁ h₂

theorem cast_mul_unitFactor (w : RoundingInterval) (k : ℤ) (a : ℕ) :
    ((a * w.unitFactor k : ℕ) : ℚ) = a * 2 ^ w.unit * w.common k := by
  rw [unitFactor, common]
  push_cast
  rw [twoPow_eq]
  ring

theorem cast_mul_gridFactor (w : RoundingInterval) (k : ℤ) (d : ℕ) :
    ((d * w.gridFactor k : ℕ) : ℚ) = d * 10 ^ k * w.common k := by
  rw [gridFactor, common]
  push_cast
  rw [tenPow_eq]
  ring

theorem unitFactor_le_gridFactor (w : RoundingInterval) (k : ℤ) (a d : ℕ) :
    a * w.unitFactor k ≤ d * w.gridFactor k ↔ (a * 2 ^ w.unit : ℚ) ≤ d * 10 ^ k := by
  rw [← @Nat.cast_le ℚ, cast_mul_unitFactor, cast_mul_gridFactor]
  exact mul_le_mul_iff_left₀ (w.common_pos k)

theorem gridFactor_le_unitFactor (w : RoundingInterval) (k : ℤ) (a d : ℕ) :
    d * w.gridFactor k ≤ a * w.unitFactor k ↔ (d * 10 ^ k : ℚ) ≤ a * 2 ^ w.unit := by
  rw [← @Nat.cast_le ℚ, cast_mul_unitFactor, cast_mul_gridFactor]
  exact mul_le_mul_iff_left₀ (w.common_pos k)

/-! ## The interval of a double -/

theorem pow_exponent (x : Binary64) : (2 : ℚ) ^ x.exponent = ulp x.magnitudeBits := rfl

theorem pow_unit (x : Binary64) : (2 : ℚ) ^ (of x).unit = ulp x.magnitudeBits / 4 := by
  have hexp : (of x).unit = x.exponent - 2 := rfl
  rw [hexp, zpow_sub₀ (by norm_num), pow_exponent]
  norm_num

theorem of_value (x : Binary64) : ((of x).value : ℚ) * 2 ^ (of x).unit = ofWord x.magnitudeBits := by
  have hvalue : (of x).value = 4 * x.significand := rfl
  rw [pow_unit, hvalue, ← magnitude_eq, magnitude, pow_exponent]
  push_cast
  ring

theorem of_upper (x : Binary64) : ((of x).upper : ℚ) * 2 ^ (of x).unit = edge x.magnitudeBits := by
  have hupper : (of x).upper = 4 * x.significand + 2 := rfl
  rw [pow_unit, hupper, edge, ← magnitude_eq, magnitude, pow_exponent]
  push_cast
  ring

theorem significand_pos {m : ℕ} (hm : x.magnitudeBits = m + 1) : 0 < x.significand := by
  rw [significand]
  split
  · next hfield =>
    rw [field, hm] at hfield
    rw [fraction, hm]
    unfold fieldUnit at *
    omega
  · unfold fieldUnit
    omega

/-- The lower end of the interval is the edge below the word. Whether the word below has the same
unit or half of it is what the two cases of the interval are about. -/
theorem of_lower {m : ℕ} (hm : x.magnitudeBits = m + 1) :
    ((of x).lower : ℚ) * 2 ^ (of x).unit = edge m := by
  have hpos := significand_pos hm
  have hedge : edge m = x.significand * ulp x.magnitudeBits - ulp m / 2 := by
    have hnext := ofWord_succ m
    rw [← hm, ← magnitude_eq, magnitude, pow_exponent] at hnext
    rw [hnext, edge]
    ring
  rw [pow_unit, hedge]
  by_cases hpower : x.fraction = 0 ∧ 1 < x.field
  · -- The word below has a smaller exponent, and its unit is only half as large.
    have hlower : (of x).lower = 4 * x.significand - 1 := if_pos hpower
    have hulp : ulp x.magnitudeBits = 2 * ulp m := by
      rw [fraction, field, hm] at hpower
      rw [hm]
      refine ulp_double ?_ ?_
      all_goals
        unfold fieldUnit at *
        omega
    rw [hlower, hulp, Nat.cast_sub (by omega)]
    push_cast
    ring
  · have hlower : (of x).lower = 4 * x.significand - 2 := if_neg hpower
    have hulp : ulp x.magnitudeBits = ulp m := by
      rw [fraction, field, hm] at hpower
      rw [hm]
      refine ulp_congr ?_
      unfold fieldUnit at *
      omega
    rw [hlower, hulp, Nat.cast_sub (by omega)]
    push_cast
    ring

theorem of_closed (x : Binary64) : (of x).closed = decide (x.magnitudeBits % 2 = 0) := by
  have hclosed : (of x).closed = decide (x.significand % 2 = 0) := rfl
  rw [hclosed, significand, fraction]
  refine decide_eq_decide.2 ?_
  split
  all_goals
    unfold fieldUnit
    omega

/-- A grid point is in the interval exactly if it is rounded to the word. -/
theorem contains_iff (hx : x.magnitudeBits ≠ 0) (k : ℤ) (d : ℕ) :
    (of x).contains k d = true ↔ RoundsTo (d * 10 ^ k) x.magnitudeBits := by
  obtain ⟨m, hm⟩ := Nat.exists_eq_succ_of_ne_zero hx
  rw [contains, of_closed, hm]
  by_cases heven : (m + 1) % 2 = 0
  · rw [roundsTo_iff_of_even heven, if_pos (decide_eq_true heven), decide_eq_true_iff,
      unitFactor_le_gridFactor, gridFactor_le_unitFactor, of_lower hm, of_upper, hm]
  · rw [roundsTo_iff_of_odd heven, if_neg (by simpa using heven), decide_eq_true_iff, ← not_le, ← not_le,
      unitFactor_le_gridFactor, gridFactor_le_unitFactor, of_lower hm, of_upper, hm, not_le, not_le]

/-! ## Points of a grid -/

theorem gridFactor_pos (w : RoundingInterval) (k : ℤ) : 0 < w.gridFactor k :=
  Nat.mul_pos (tenPow_pos _) (twoPow_pos _)

theorem floorAt_le (x : Binary64) (k : ℤ) :
    ((of x).floorAt k : ℚ) * 10 ^ k ≤ ofWord x.magnitudeBits := by
  rw [← of_value, ← gridFactor_le_unitFactor]
  exact Nat.div_mul_le_self _ _

theorem lt_floorAt_succ (x : Binary64) (k : ℤ) :
    ofWord x.magnitudeBits < (((of x).floorAt k + 1 : ℕ) : ℚ) * 10 ^ k := by
  rw [← of_value, ← not_le, ← gridFactor_le_unitFactor, not_le, Nat.mul_comm (_ + 1)]
  exact Nat.lt_mul_div_succ _ (gridFactor_pos _ _)

theorem nearer_eq (w : RoundingInterval) (tie : Tie) (k : ℤ) (d : ℕ) :
    w.nearer tie k d = d ∨ w.nearer tie k d = d + 1 := by
  cases tie with
  | up => grind [nearer]
  | toEven => grind [nearer]

/-- A grid point that is returned is one of the two next to the value, and it has been tested. -/
theorem contains_of_pointAt? {w : RoundingInterval} {tie : Tie} {k : ℤ} {d : ℕ}
    (h : w.pointAt? tie k = some d) : w.contains k d = true := by
  simp only [pointAt?] at h
  split at h
  · next hfloor hnext =>
    obtain rfl := Option.some.inj h
    rcases nearer_eq w tie k (w.floorAt k) with h | h
    · rwa [h]
    · rwa [h]
  · next hfloor hnext =>
    obtain rfl := Option.some.inj h
    exact hfloor
  · next hfloor hnext =>
    obtain rfl := Option.some.inj h
    exact hnext
  · contradiction

/-- Any point of the grid in the interval would bring one of the two next to the value into it. -/
theorem not_roundsTo_of_pointAt? (hx : x.magnitudeBits ≠ 0) {tie : Tie} {k : ℤ}
    (h : (of x).pointAt? tie k = none) (d : ℕ) : ¬ RoundsTo (d * 10 ^ k) x.magnitudeBits := by
  intro hd
  have hpow : (0 : ℚ) < 10 ^ k := zpow_pos (by norm_num) k
  have hcontains : (of x).contains k ((of x).floorAt k) = true ∨
      (of x).contains k ((of x).floorAt k + 1) = true := by
    rw [contains_iff hx, contains_iff hx]
    rcases Nat.lt_or_ge ((of x).floorAt k) d with hlt | hge
    · have hle : (((of x).floorAt k + 1 : ℕ) : ℚ) * 10 ^ k ≤ d * 10 ^ k :=
        mul_le_mul_of_nonneg_right (by exact_mod_cast hlt) hpow.le
      exact .inr ((roundsTo_ofWord _).between hd (lt_floorAt_succ x k).le hle)
    · have hle : (d : ℚ) * 10 ^ k ≤ (of x).floorAt k * 10 ^ k :=
        mul_le_mul_of_nonneg_right (by exact_mod_cast hge) hpow.le
      exact .inl (hd.between (roundsTo_ofWord _) hle (floorAt_le x k))
  unfold pointAt? at h
  grind

/-! ## The search -/

/-- The finest grid is chosen so that the unit is a whole number of its steps. -/
theorem gridFactor_dvd_unitFactor (w : RoundingInterval) :
    w.gridFactor (min w.unit 0) ∣ w.unitFactor (min w.unit 0) := by
  have hten : tenPow (min w.unit 0) = 1 := by
    rw [tenPow, Int.toNat_eq_zero.2 (min_le_right _ _)]
  rw [gridFactor, unitFactor, hten, Nat.one_mul]
  rcases le_total w.unit 0 with hneg | hpos
  · rw [min_eq_left hneg]
    exact Dvd.dvd.mul_left (pow_dvd_pow_of_dvd (by norm_num) _) _
  · have htwo : twoPow (-w.unit) = 1 := by
      rw [twoPow, Int.toNat_eq_zero.2 (by omega)]
    rw [htwo]
    exact one_dvd _

/-- A negative power of two is a power of five on the finest grid, so that grid has the value itself. -/
theorem floorAt_finest (x : Binary64) :
    ((of x).floorAt (min (of x).unit 0) : ℚ) * 10 ^ min (of x).unit 0 = ofWord x.magnitudeBits := by
  have hexact : (of x).floorAt (min (of x).unit 0) * (of x).gridFactor (min (of x).unit 0) =
      (of x).value * (of x).unitFactor (min (of x).unit 0) :=
    Nat.div_mul_cancel (Dvd.dvd.mul_left (gridFactor_dvd_unitFactor _) _)
  rw [← of_value]
  exact le_antisymm ((gridFactor_le_unitFactor _ _ _ _).1 hexact.le)
    ((unitFactor_le_gridFactor _ _ _ _).1 hexact.ge)

/-- Whatever the search returns is rounded to the word: a point that was tested, or at the end the
value itself. -/
theorem roundsTo_search (hx : x.magnitudeBits ≠ 0) (tie : Tie) (n : ℕ) :
    RoundsTo ((of x).search tie (min (of x).unit 0) n).value x.magnitudeBits := by
  induction n with
  | zero =>
    rw [search, Decimal.value, floorAt_finest]
    exact roundsTo_ofWord _
  | succ n ih =>
    rw [search]
    split
    · next d hpoint => exact (contains_iff hx _ _).1 (contains_of_pointAt? hpoint)
    · exact ih

/-- A grid that was passed has no point that is rounded to the word. -/
theorem not_roundsTo_of_lt_search (hx : x.magnitudeBits ≠ 0) (tie : Tie) (k₀ : ℤ) (n : ℕ) {k : ℤ}
    (hlt : ((of x).search tie k₀ n).scale < k) (hle : k ≤ k₀ + n) (d : ℕ) :
    ¬ RoundsTo (d * 10 ^ k) x.magnitudeBits := by
  induction n with
  | zero =>
    have hscale : k₀ < k := hlt
    omega
  | succ n ih =>
    rw [search] at hlt
    split at hlt
    · have hscale : k₀ + (n + 1 : ℕ) < k := hlt
      omega
    · next hpoint =>
      rcases hle.lt_or_eq with hlt' | rfl
      · exact ih hlt (by push_cast at hlt'; omega)
      · exact not_roundsTo_of_pointAt? hx hpoint d

/-! ## The coarsest grid -/

/-- Above the coarsest grid that is tried the first point is beyond the interval. -/
theorem edge_lt_of_coarsest_lt {k : ℤ} (h : (of x).coarsest < k) : edge x.magnitudeBits < 10 ^ k := by
  have hupper : (of x).upper = 4 * x.significand + 2 := rfl
  have hunit : (of x).unit = (max x.field 1 : ℕ) - 1075 - 2 := rfl
  have hcoarsest : (of x).coarsest = ((of x).upper.log2 + (of x).unit + 1) * 30103 / 100000 + 1 := rfl
  have hfield := field_lt x
  have hlog : (of x).upper.log2 < 56 := by
    have hlt := significand_lt x
    unfold fieldUnit at hlt
    rw [Nat.log2_lt (by omega)]
    omega
  have hpow : (2 : ℚ) ^ ((of x).upper.log2 + (of x).unit + 1 : ℤ) ≤ 10 ^ k := by
    rcases le_total 0 ((of x).upper.log2 + (of x).unit + 1 : ℤ) with hpos | hneg
    · exact two_zpow_le_of_nonneg hpos (by omega)
    · exact two_zpow_le_of_nonpos hneg (by omega)
  calc edge x.magnitudeBits = (of x).upper * 2 ^ (of x).unit := (of_upper x).symm
    _ < 2 ^ ((of x).upper.log2 + 1) * 2 ^ (of x).unit := by
      refine mul_lt_mul_of_pos_right ?_ (by positivity)
      exact_mod_cast Nat.lt_log2_self
    _ = 2 ^ ((of x).upper.log2 + (of x).unit + 1 : ℤ) := by
      rw [← zpow_natCast, ← zpow_add₀ (by norm_num)]
      congr 1
      push_cast
      ring
    _ ≤ 10 ^ k := hpow

end RoundingInterval

namespace Binary64

variable {x : Binary64}

open RoundingInterval

/-! ## The shortest decimal -/

theorem roundsTo_shortest (hx : x.magnitudeBits ≠ 0) (tie : Tie) :
    RoundsTo (x.shortest tie).value x.magnitudeBits :=
  roundsTo_search hx tie _

theorem digits_shortest_ne_zero (hx : x.magnitudeBits ≠ 0) (tie : Tie) : (x.shortest tie).digits ≠ 0 :=
  (roundsTo_shortest hx tie).digits_ne_zero hx

/-- No decimal that is rounded to the word is on a coarser grid. -/
theorem scale_le_shortest (hx : x.magnitudeBits ≠ 0) (tie : Tie) {d : Decimal}
    (hd : RoundsTo d.value x.magnitudeBits) : d.scale ≤ (x.shortest tie).scale := by
  by_contra hlt
  rcases lt_or_ge (of x).coarsest d.scale with hcoarse | hfine
  · have hle : 10 ^ d.scale ≤ edge x.magnitudeBits :=
      (Decimal.pow_scale_le_value (hd.digits_ne_zero hx)).trans hd.le_edge
    exact absurd hle (not_le.2 (edge_lt_of_coarsest_lt hcoarse))
  · exact not_roundsTo_of_lt_search hx tie _ _ (not_le.1 hlt) (by omega) d.digits hd

/-- A power of ten is above the decimals written for the words below its own and not above the others. -/
theorem pow_le_shortest_iff (hx : x.magnitudeBits ≠ 0) (tie : Tie) {k : ℤ} {m : ℕ}
    (hm : RoundsTo (10 ^ k) m) : 10 ^ k ≤ (x.shortest tie).value ↔ m ≤ x.magnitudeBits := by
  have hshortest := roundsTo_shortest hx tie
  constructor
  · intro hle
    by_contra hlt
    exact hm.2 _ (not_le.1 hlt) (hshortest.1.of_le hle)
  · intro hle
    rcases hle.lt_or_eq with hless | rfl
    · by_contra hlt
      exact hshortest.2 m hless (hm.1.of_le (not_le.1 hlt).le)
    · -- For its own word the power is a grid point, so the grid of the shortest decimal is as coarse.
      have hscale : k ≤ (x.shortest tie).scale :=
        scale_le_shortest hx tie (d := ⟨1, k⟩) (by rwa [Decimal.value_pow])
      calc (10 : ℚ) ^ k ≤ 10 ^ (x.shortest tie).scale := zpow_le_zpow_right₀ (by norm_num) hscale
        _ ≤ (x.shortest tie).value := Decimal.pow_scale_le_value (digits_shortest_ne_zero hx tie)

/-- No decimal that is rounded to the word has fewer digits. A shorter one would have its last digit at
least as far right, and then the power of ten above it would lie between the two, on a coarser grid. -/
theorem shortest_digits_lt (hx : x.magnitudeBits ≠ 0) (tie : Tie) {d : Decimal} {n : ℕ}
    (hd : RoundsTo d.value x.magnitudeBits) (hn : d.digits < 10 ^ n) :
    (x.shortest tie).digits < 10 ^ n := by
  by_contra hlong
  have hbelow : d.value ≤ 10 ^ (n + (x.shortest tie).scale : ℤ) := by
    calc d.value ≤ 10 ^ (n + d.scale : ℤ) := ((d.value_lt_iff n).2 hn).le
      _ ≤ 10 ^ (n + (x.shortest tie).scale : ℤ) :=
        zpow_le_zpow_right₀ (by norm_num) (Int.add_le_add_left (scale_le_shortest hx tie hd) n)
  have habove : 10 ^ (n + (x.shortest tie).scale : ℤ) ≤ (x.shortest tie).value :=
    not_lt.1 fun hlt => hlong (((x.shortest tie).value_lt_iff n).1 hlt)
  have hpower := hd.between (roundsTo_shortest hx tie) hbelow habove
  rw [← Decimal.value_pow] at hpower
  have hcoarser : n + (x.shortest tie).scale ≤ (x.shortest tie).scale := scale_le_shortest hx tie hpower
  have hzero : n = 0 := by omega
  subst hzero
  exact hd.digits_ne_zero hx (Nat.lt_one_iff.1 hn)

end Binary64

end ScopedCss
