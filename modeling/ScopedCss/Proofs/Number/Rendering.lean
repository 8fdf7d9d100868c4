import Mathlib.Data.Rat.Lemmas
import Mathlib.Tactic.NormNum
import ScopedCss.Proofs.Number.Nearest
import ScopedCss.Proofs.Number.Numeral
import ScopedCss.Proofs.Number.Words
import ScopedCss.Style.Unit

/-!
# Numbers as text

The text of a number is read back to the same number (`numberOfText_renderNumber`): the numeral stands for a
decimal that is rounded to the word, and rounding finds that word. The decimal is positional as long as it
is between the two powers of ten of the layout, and that is decided by the word alone.
-/

namespace ScopedCss

open Binary64

/-! ## Reading back -/

/-- The text of an infinity, without its sign. -/
def infinityText : List Char := ['I', 'n', 'f', 'i', 'n', 'i', 't', 'y']

/-- The double that a text without a sign stands for, as the lower bits of its word. -/
def magnitudeOfText (cs : List Char) : ℕ :=
  if cs = infinityText then topField * fieldUnit
  else nearestMagnitude (numeralValue cs).num.natAbs (numeralValue cs).den

/-- The double that a text stands for: a numeral or an infinity, with or without a minus sign. -/
def numberOfText (text : String) : Binary64 :=
  match text.toList with
  | '-' :: cs => ofMagnitude true (magnitudeOfText cs)
  | cs => ofMagnitude false (magnitudeOfText cs)

/-- A numeral is read as the word that its value is rounded to. -/
theorem magnitudeOfText_of_numeral {cs : List Char} {q : ℚ} {m : ℕ} (h : Numeral cs q) (hq : 0 ≤ q)
    (hround : RoundsTo q m) (hm : m < topField * fieldUnit) : magnitudeOfText cs = m := by
  have htext : cs ≠ infinityText := by
    rintro rfl
    obtain ⟨c, rest, heq, hc⟩ := h.head
    obtain rfl : 'I' = c := (List.cons.inj heq).1
    contradiction
  have hquotient : ((q.num.natAbs : ℕ) : ℚ) / q.den = q := by
    rw [Nat.cast_natAbs, abs_of_nonneg (Rat.num_nonneg.2 hq), Rat.num_div_den]
  rw [magnitudeOfText, if_neg htext, h.value]
  rwa [nearestMagnitude_eq_iff q.den_nz hm, hquotient]

/-- A minus sign, or nothing. -/
def signText (negative : Bool) : List Char := if negative then ['-'] else []

/-- A minus sign in front makes the number negative, and nothing else does. -/
theorem numberOfText_ofList (negative : Bool) {c : Char} {cs : List Char} (hc : c ≠ '-') :
    numberOfText (String.ofList (signText negative ++ c :: cs)) =
      ofMagnitude negative (magnitudeOfText (c :: cs)) := by
  rw [numberOfText, String.toList_ofList]
  cases negative with
  | true => rfl
  | false =>
    rw [signText, if_neg Bool.false_ne_true, List.nil_append]
    split
    · next heq => exact absurd (List.cons.inj heq).1 hc
    · rfl

theorem numberOfText_of_numeral (negative : Bool) {cs : List Char} {q : ℚ} {m : ℕ} (h : Numeral cs q)
    (hq : 0 ≤ q) (hround : RoundsTo q m) (hm : m < topField * fieldUnit) :
    numberOfText (String.ofList (signText negative ++ cs)) = ofMagnitude negative m := by
  have hread := magnitudeOfText_of_numeral h hq hround hm
  obtain ⟨c, rest, rfl, hc⟩ := h.head
  have hminus : c ≠ '-' := by
    rintro rfl
    contradiction
  rw [numberOfText_ofList negative hminus, hread]

theorem renderNumber_of_isInfinite {x : Binary64} (hx : x.isInfinite = true) :
    renderNumber x = String.ofList (signText x.negative ++ infinityText) := by
  have hnan : ¬ x.isNaN = true := by
    intro h
    exact (of_decide_eq_true h).2 (of_decide_eq_true hx).2
  rw [renderNumber, if_neg hnan, if_pos hx]
  cases x.negative with
  | true => rfl
  | false => rfl

theorem renderNumber_of_isZero {x : Binary64} (hx : x.isZero = true) : renderNumber x = "0" := by
  have hfin := isFinite_of_isZero hx
  rw [renderNumber, if_neg (not_isNaN hfin), if_neg (not_isInfinite hfin), if_pos hx]

theorem renderNumber_of_isFinite {x : Binary64} (hx : x.isFinite = true) (hzero : x.isZero = false) :
    renderNumber x = String.ofList (signText x.negative ++ Layout.css.write (x.shortest .up)) := by
  have hnot : ¬ x.isZero = true := Bool.eq_false_iff.1 hzero
  rw [renderNumber, if_neg (not_isNaN hx), if_neg (not_isInfinite hx), if_neg hnot]
  simp only [Layout.writeBinary64, if_neg hnot]
  rfl

/-- What is written for a number reads back to it, only without the sign of a zero. -/
theorem numberOfText_renderNumber {x : Binary64} (hx : x.isNaN = false) :
    numberOfText (renderNumber x) = if x.isZero then zero false else x := by
  by_cases hzero : x.isZero = true
  · have hnumeral : Numeral ['0'] 0 := by
      have hm : Mantissa ['0'] (0 : ℕ) := .whole (List.cons_ne_nil '0' []) (areDigits_toDigits 0)
      simpa using Numeral.plain hm
    have hround : RoundsTo 0 0 := ofWord_zero ▸ roundsTo_ofWord 0
    rw [renderNumber_of_isZero hzero, if_pos hzero]
    exact numberOfText_of_numeral false hnumeral le_rfl hround (by decide)
  · rw [if_neg hzero]
    have hzero' := Bool.eq_false_iff.2 hzero
    by_cases hinf : x.isInfinite = true
    · have hread : magnitudeOfText infinityText = x.magnitudeBits := by
        rw [magnitudeOfText, if_pos rfl, eq_top_of_isInfinite hinf]
      rw [renderNumber_of_isInfinite hinf, infinityText, numberOfText_ofList x.negative (by decide),
        ← infinityText, hread, ofMagnitude_magnitudeBits]
    · have hfin := isFinite_of_not hx (Bool.eq_false_iff.2 hinf)
      have hround := roundsTo_shortest (magnitudeBits_ne_zero hzero') .up
      have hpos := hround.pos (magnitudeBits_ne_zero hzero')
      rw [renderNumber_of_isFinite hfin hzero',
        numberOfText_of_numeral x.negative (Layout.numeral_write _ _) hpos.le hround
          (lt_top_of_isFinite hfin),
        ofMagnitude_magnitudeBits]

/-- Two numbers have the same text only if they are the same, or both are zero: the text can be read
back. -/
theorem renderNumber_eq_iff {a b : Binary64} (ha : a.isNaN = false) (hb : b.isNaN = false) :
    renderNumber a = renderNumber b ↔ a = b ∨ a.isZero = true ∧ b.isZero = true := by
  constructor
  · intro h
    have hread : (if a.isZero then zero false else a) = if b.isZero then zero false else b := by
      rw [← numberOfText_renderNumber ha, h, numberOfText_renderNumber hb]
    by_cases hza : a.isZero = true
    · by_cases hzb : b.isZero = true
      · exact .inr ⟨hza, hzb⟩
      · rw [if_pos hza, if_neg hzb] at hread
        exact absurd (hread ▸ rfl) hzb
    · by_cases hzb : b.isZero = true
      · rw [if_neg hza, if_pos hzb] at hread
        exact absurd (hread ▸ rfl) hza
      · rw [if_neg hza, if_neg hzb] at hread
        exact .inl hread
  · rintro (rfl | ⟨hza, hzb⟩)
    · rfl
    · rw [renderNumber_of_isZero hza, renderNumber_of_isZero hzb]

/-! ## Notations -/

section Notations

variable {x : Binary64} (hx : x.isZero = false)

include hx

/-- The leading digit of the text, from the word that the power of ten is rounded to. -/
theorem le_leading_iff {k : ℤ} {m : ℕ} (hm : RoundsTo (10 ^ k) m) (tie : Tie) :
    k ≤ (x.shortest tie).leading ↔ m ≤ x.magnitudeBits := by
  rw [← Decimal.pow_le_value_iff (digits_shortest_ne_zero (magnitudeBits_ne_zero hx) tie),
    pow_le_shortest_iff (magnitudeBits_ne_zero hx) tie hm]

/-- A power of ten that is a double is below the decimal if it is below the number. -/
theorem le_leading_iff_of_ofWord {k : ℤ} {m : ℕ} (hm : ofWord m = 10 ^ k) (tie : Tie) :
    k ≤ (x.shortest tie).leading ↔ 10 ^ k ≤ x.magnitude := by
  rw [le_leading_iff hx (hm ▸ roundsTo_ofWord m) tie, ← hm, magnitude_eq, strictMono_ofWord.le_iff_le]

end Notations

theorem ofWord_one : ofWord 0x3FF0000000000000 = 10 ^ (0 : ℤ) := by
  norm_num [ofWord, ulp, fieldUnit]

theorem ofWord_greatest : ofWord 0x444B1AE4D6E2EF50 = 10 ^ (21 : ℤ) := by
  norm_num [ofWord, ulp, fieldUnit]

/-- The double nearest to 10^-6 is a little below it. -/
theorem millionth_between :
    ofWord 0x3EB0C6F7A0B5ED8D < 10 ^ (-6 : ℤ) ∧ (10 : ℚ) ^ (-6 : ℤ) < edge 0x3EB0C6F7A0B5ED8D := by
  norm_num [edge, ofWord, ulp, fieldUnit]

theorem roundsTo_millionth : RoundsTo (10 ^ (-6 : ℤ)) 0x3EB0C6F7A0B5ED8D := by
  refine ⟨.inl millionth_between.2, fun n hn h => ?_⟩
  have hlt : edge n < 10 ^ (-6 : ℤ) := by
    calc edge n < ofWord (n + 1) := edge_lt_ofWord n
      _ ≤ ofWord 0x3EB0C6F7A0B5ED8D := strictMono_ofWord.monotone hn
      _ < 10 ^ (-6 : ℤ) := millionth_between.1
  exact absurd h.le (not_le.2 hlt)

theorem magnitude_millionth : (nearest false 1 1000000).magnitude = ofWord 0x3EB0C6F7A0B5ED8D := by
  have hword : nearestMagnitude 1 1000000 = 0x3EB0C6F7A0B5ED8D := by
    have hquotient : ((1 : ℕ) / (1000000 : ℕ) : ℚ) = 10 ^ (-6 : ℤ) := by norm_num
    rw [nearestMagnitude_eq_iff (by norm_num) (by decide), hquotient]
    exact roundsTo_millionth
  rw [magnitude_eq, nearest, hword, magnitudeBits_ofMagnitude false (by decide)]

/-- Among the words, only that of the double nearest to 10^-6 is below 10^-6 and not below that double. -/
theorem millionth_le_iff (m : ℕ) : 0x3EB0C6F7A0B5ED8D ≤ m ↔
    ¬ (ofWord m < 10 ^ (-6 : ℤ) ∧ ofWord m ≠ ofWord 0x3EB0C6F7A0B5ED8D) := by
  constructor
  · rintro hle ⟨hlt, hne⟩
    rcases hle.lt_or_eq with hless | rfl
    · have hgt : 10 ^ (-6 : ℤ) < ofWord m := by
        calc (10 : ℚ) ^ (-6 : ℤ) < edge 0x3EB0C6F7A0B5ED8D := millionth_between.2
          _ < ofWord (0x3EB0C6F7A0B5ED8D + 1) := edge_lt_ofWord _
          _ ≤ ofWord m := strictMono_ofWord.monotone hless
      exact lt_asymm hlt hgt
    · exact hne rfl
  · intro h
    by_contra hlt
    have hless := strictMono_ofWord (not_le.1 hlt)
    exact h ⟨hless.trans millionth_between.1, hless.ne⟩

/-- The leading digit is in the range of positional notation exactly if the number is, where the double
nearest to 10^-6 counts as 10^-6. -/
theorem leading_css_iff {x : Binary64} (hx : x.isZero = false) (tie : Tie) :
    (-6 ≤ (x.shortest tie).leading ∧ (x.shortest tie).leading ≤ 20) ↔
      ¬ (10 ^ 21 ≤ x.magnitude ∨
        x.magnitude < 10 ^ (-6 : ℤ) ∧ x.magnitude ≠ (nearest false 1 1000000).magnitude) := by
  have hleast := le_leading_iff hx roundsTo_millionth tie
  have hgreatest := le_leading_iff_of_ofWord hx ofWord_greatest tie
  rw [millionth_le_iff, ← magnitude_millionth, ← magnitude_eq] at hleast
  rw [not_or, hleast, ← not_lt, ← Int.add_one_le_iff, and_comm]
  exact and_congr_left' (not_congr hgreatest)

/-- The text of a number is the text of another only if they are the same number, and it has an exponent,
with its sign, exactly for the magnitudes from 10^21 and for those below the double nearest to 10^-6. -/
theorem number_text_lossless :
    (∀ a b : Binary64, a.isNaN = false → b.isNaN = false →
      (renderNumber a = renderNumber b ↔ a = b ∨ a.isZero = true ∧ b.isZero = true)) ∧
    ∀ x : Binary64, x.isFinite = true → x.isZero = false →
      ('e' ∈ (renderNumber x).toList ↔ 10 ^ 21 ≤ x.magnitude ∨
        x.magnitude < 10 ^ (-6 : ℤ) ∧ x.magnitude ≠ (nearest false 1 1000000).magnitude) ∧
      ∀ front back, (renderNumber x).toList = front ++ 'e' :: back →
        back.head? = some (if 1 ≤ x.magnitude then '+' else '-') := by
  refine ⟨fun a b ha hb => renderNumber_eq_iff ha hb, fun x hfin hzero => ?_⟩
  have htext : (renderNumber x).toList = signText x.negative ++ Layout.css.write (x.shortest .up) := by
    rw [renderNumber_of_isFinite hfin hzero, String.toList_ofList]
  have hsign : 'e' ∉ signText x.negative := by
    cases x.negative with
    | true => decide
    | false => decide
  rw [htext]
  constructor
  · have hmem := Layout.exponent_mem_write_iff Layout.css (x.shortest .up)
    rw [List.mem_append, or_iff_right hsign, hmem]
    exact not_iff_comm.1 (leading_css_iff hzero .up).symm
  · intro front back h
    have hone := le_leading_iff_of_ofWord hzero ofWord_one .up
    rw [zpow_zero] at hone
    rw [Layout.exponent_sign_write Layout.css (x.shortest .up) hsign h, exponentSign]
    by_cases hle : 1 ≤ x.magnitude
    · rw [if_pos hle, if_neg (not_lt.2 (hone.2 hle))]
    · rw [if_neg hle, if_pos (not_le.1 fun hlead => hle (hone.1 hlead))]

/-- On either side of 10^21. -/
theorem number_text_lossless_at_greatest :
    (Binary64.mk 0x444B1AE4D6E2EF4F).isNaN = false ∧ (Binary64.mk 0x444B1AE4D6E2EF50).isNaN = false ∧
      (Binary64.mk 0x444B1AE4D6E2EF4F).isFinite = true ∧ (Binary64.mk 0x444B1AE4D6E2EF4F).isZero = false ∧
      (Binary64.mk 0x444B1AE4D6E2EF50).isFinite = true ∧ (Binary64.mk 0x444B1AE4D6E2EF50).isZero = false ∧
      renderNumber ⟨0x444B1AE4D6E2EF4F⟩ ≠ renderNumber ⟨0x444B1AE4D6E2EF50⟩ ∧
      'e' ∉ (renderNumber ⟨0x444B1AE4D6E2EF4F⟩).toList ∧
      'e' ∈ (renderNumber ⟨0x444B1AE4D6E2EF50⟩).toList := by
  have habove : 10 ^ 21 ≤ (Binary64.mk 0x444B1AE4D6E2EF50).magnitude := ofWord_greatest.ge
  have hbelow : (Binary64.mk 0x444B1AE4D6E2EF4F).magnitude < 10 ^ 21 := by
    have hlt : ofWord 0x444B1AE4D6E2EF4F < ofWord 0x444B1AE4D6E2EF50 := strictMono_ofWord (by norm_num)
    exact hlt.trans_eq ofWord_greatest
  have hsmall : ¬ (Binary64.mk 0x444B1AE4D6E2EF4F).magnitude < 10 ^ (-6 : ℤ) := by
    have hle : ofWord 0x3FF0000000000000 ≤ ofWord 0x444B1AE4D6E2EF4F :=
      strictMono_ofWord.monotone (by norm_num)
    have hone : (10 : ℚ) ^ (-6 : ℤ) ≤ ofWord 0x3FF0000000000000 := by
      rw [ofWord_one]
      norm_num
    exact not_lt.2 (hone.trans hle)
  refine ⟨by decide, by decide, by decide, by decide, by decide, by decide, fun h => ?_, fun h => ?_, ?_⟩
  · rcases (number_text_lossless.1 _ _ (by decide) (by decide)).1 h with h | h
    · exact absurd h (by decide)
    · exact absurd h.1 (by decide)
  · rcases (number_text_lossless.2 _ (by decide) (by decide)).1.1 h with h | h
    · exact absurd h (not_le.2 hbelow)
    · exact hsmall h.1
  · exact (number_text_lossless.2 _ (by decide) (by decide)).1.2 (.inl habove)

/-- The double nearest to 10^-6 is below 10^-6, and it is written without an exponent. -/
theorem renderNumber_just_below_millionth :
    (nearest false 1 1000000).isFinite = true ∧ (nearest false 1 1000000).isZero = false ∧
      (nearest false 1 1000000).magnitude < 10 ^ (-6 : ℤ) ∧
      renderNumber (nearest false 1 1000000) = "0.000001" ∧
      'e' ∉ (renderNumber (nearest false 1 1000000)).toList := by
  have htext : renderNumber (nearest false 1 1000000) = "0.000001" := by
    decide +kernel
  refine ⟨by decide +kernel, by decide +kernel, ?_, htext, ?_⟩
  · rw [magnitude_millionth]
    exact millionth_between.1
  · rw [htext]
    decide

end ScopedCss
