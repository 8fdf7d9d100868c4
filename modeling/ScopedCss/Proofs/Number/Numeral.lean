import Mathlib.Tactic.NormNum
import Mathlib.Tactic.Ring
import ScopedCss.Number.Layout
import ScopedCss.Proofs.Number.Shortest

/-!
# Numerals

A numeral is a mantissa, which is digits with or without a point among them, and perhaps an exponent with
its sign behind the letter `e`. Read back, the numeral that is written for a decimal has exactly the value
of the decimal, in every layout and in both notations.
-/

namespace ScopedCss

/-! ## Reading -/

/-- The number that digits stand for. -/
def digitsValue (ds : List Char) : ℕ := Nat.ofDigitChars 10 ds 0

/-- The number that digits with or without a point stand for. -/
def mantissaValue (cs : List Char) : ℚ :=
  let whole := cs.takeWhile (· ≠ '.')
  let places := (cs.dropWhile (· ≠ '.')).tail
  digitsValue (whole ++ places) * 10 ^ (-places.length : ℤ)

/-- The exponent that is written behind the letter `e`. -/
def exponentValue : List Char → ℤ
  | '-' :: ds => -digitsValue ds
  | '+' :: ds => digitsValue ds
  | ds => digitsValue ds

/-- The number that a numeral stands for. -/
def numeralValue (cs : List Char) : ℚ :=
  mantissaValue (cs.takeWhile (· ≠ 'e')) * 10 ^ exponentValue (cs.dropWhile (· ≠ 'e')).tail

/-! ## The grammar -/

/-- All characters are digits. -/
def AreDigits (ds : List Char) : Prop := ∀ c ∈ ds, c.isDigit = true

/-- Digits, with or without a point behind the first of them, and the number they stand for. -/
inductive Mantissa : List Char → ℚ → Prop
  | whole {ds : List Char} (hne : ds ≠ []) (hds : AreDigits ds) : Mantissa ds (digitsValue ds)
  | point {ds places : List Char} (hne : ds ≠ []) (hds : AreDigits ds) (hplaces : AreDigits places) :
    Mantissa (ds ++ '.' :: places) (digitsValue (ds ++ places) * 10 ^ (-places.length : ℤ))

/-- The sign of an exponent, as it is written. -/
def exponentSign (e : ℤ) : Char := if e < 0 then '-' else '+'

/-- A mantissa, alone or with an exponent, and the number it stands for. -/
inductive Numeral : List Char → ℚ → Prop
  | plain {m : List Char} {q : ℚ} (hm : Mantissa m q) : Numeral m q
  | exponent {m : List Char} {q : ℚ} (hm : Mantissa m q) (e : ℤ) :
    Numeral (m ++ 'e' :: exponentSign e :: Nat.toDigits 10 e.natAbs) (q * 10 ^ e)

theorem areDigits_toDigits (n : ℕ) : AreDigits (Nat.toDigits 10 n) := fun _ hc =>
  Nat.isDigit_of_mem_toDigits (by norm_num) (by norm_num) hc

theorem digitsValue_toDigits (n : ℕ) : digitsValue (Nat.toDigits 10 n) = n := Nat.ofDigitChars_ten_toDigits

theorem AreDigits.append {ds ps : List Char} (hds : AreDigits ds) (hps : AreDigits ps) :
    AreDigits (ds ++ ps) := by
  intro c hc
  rcases List.mem_append.1 hc with h | h
  · exact hds c h
  · exact hps c h

theorem AreDigits.not_mem {ds : List Char} (hds : AreDigits ds) {c : Char} (hc : c.isDigit = false) :
    c ∉ ds := fun hmem => by simp [hds c hmem] at hc

theorem areDigits_zeros (n : ℕ) : AreDigits (Layout.zeros n) := by
  intro c hc
  rw [List.eq_of_mem_replicate hc]
  rfl

theorem ne_of_not_mem {c : Char} {cs : List Char} (h : c ∉ cs) : ∀ a ∈ cs, decide (a ≠ c) = true := by
  intro a ha
  exact decide_eq_true (ne_of_mem_of_not_mem ha h)

/-- Up to a character that does not stand before, everything is taken. -/
theorem takeWhile_ne_append {c : Char} {front : List Char} (h : c ∉ front) (back : List Char) :
    (front ++ c :: back).takeWhile (· ≠ c) = front := by
  rw [List.takeWhile_append_of_pos (ne_of_not_mem h)]
  simp

theorem dropWhile_ne_append {c : Char} {front : List Char} (h : c ∉ front) (back : List Char) :
    (front ++ c :: back).dropWhile (· ≠ c) = c :: back := by
  rw [List.dropWhile_append_of_pos (ne_of_not_mem h)]
  simp

theorem takeWhile_ne_of_not_mem {c : Char} {cs : List Char} (h : c ∉ cs) : cs.takeWhile (· ≠ c) = cs := by
  calc cs.takeWhile (· ≠ c) = (cs ++ []).takeWhile (· ≠ c) := by rw [List.append_nil]
    _ = cs ++ [].takeWhile (· ≠ c) := List.takeWhile_append_of_pos (ne_of_not_mem h)
    _ = cs := List.append_nil cs

theorem dropWhile_ne_of_not_mem {c : Char} {cs : List Char} (h : c ∉ cs) : cs.dropWhile (· ≠ c) = [] := by
  calc cs.dropWhile (· ≠ c) = (cs ++ []).dropWhile (· ≠ c) := by rw [List.append_nil]
    _ = [].dropWhile (· ≠ c) := List.dropWhile_append_of_pos (ne_of_not_mem h)

/-- The reader takes a mantissa apart where the grammar put it together. -/
theorem Mantissa.value {m : List Char} {q : ℚ} (h : Mantissa m q) : mantissaValue m = q := by
  cases h with
  | whole hne hds =>
    have hpoint := hds.not_mem (c := '.') rfl
    rw [mantissaValue, takeWhile_ne_of_not_mem hpoint, dropWhile_ne_of_not_mem hpoint]
    simp
  | point hne hds hplaces =>
    have hpoint := hds.not_mem (c := '.') rfl
    rw [mantissaValue, takeWhile_ne_append hpoint, dropWhile_ne_append hpoint, List.tail_cons]

theorem Mantissa.not_mem {m : List Char} {q : ℚ} (h : Mantissa m q) : 'e' ∉ m := by
  cases h with
  | whole hne hds => exact hds.not_mem rfl
  | point hne hds hplaces =>
    simp only [List.mem_append, List.mem_cons, not_or]
    exact ⟨hds.not_mem rfl, by decide, hplaces.not_mem rfl⟩

/-- A mantissa begins with a digit, so it is neither signed nor the name of an infinity. -/
theorem Mantissa.head {m : List Char} {q : ℚ} (h : Mantissa m q) :
    ∃ c cs, m = c :: cs ∧ c.isDigit = true := by
  cases h with
  | @whole ds hne hds =>
    obtain ⟨c, cs, rfl⟩ := List.exists_cons_of_ne_nil hne
    exact ⟨c, cs, rfl, hds c List.mem_cons_self⟩
  | @point ds places hne hds hplaces =>
    obtain ⟨c, cs, rfl⟩ := List.exists_cons_of_ne_nil hne
    exact ⟨c, cs ++ '.' :: places, rfl, hds c List.mem_cons_self⟩

theorem exponentValue_written (e : ℤ) :
    exponentValue (exponentSign e :: Nat.toDigits 10 e.natAbs) = e := by
  by_cases h : e < 0
  · rw [exponentSign, if_pos h, exponentValue, digitsValue_toDigits]
    omega
  · rw [exponentSign, if_neg h, exponentValue, digitsValue_toDigits]
    omega

theorem Numeral.value {cs : List Char} {q : ℚ} (h : Numeral cs q) : numeralValue cs = q := by
  cases h with
  | plain hm =>
    rw [numeralValue, takeWhile_ne_of_not_mem hm.not_mem, dropWhile_ne_of_not_mem hm.not_mem, hm.value]
    simp [exponentValue, digitsValue]
  | exponent hm e =>
    rw [numeralValue, takeWhile_ne_append hm.not_mem, dropWhile_ne_append hm.not_mem, List.tail_cons,
      hm.value, exponentValue_written]

theorem Numeral.head {cs : List Char} {q : ℚ} (h : Numeral cs q) :
    ∃ c rest, cs = c :: rest ∧ c.isDigit = true := by
  cases h with
  | plain hm => exact hm.head
  | exponent hm e =>
    obtain ⟨c, rest, rfl, hc⟩ := hm.head
    exact ⟨c, _, rfl, hc⟩

/-! ## The leading digit -/

theorem ten_zpow_natCast (n : ℕ) : ((10 ^ n : ℕ) : ℚ) = 10 ^ (n : ℤ) := by
  rw [zpow_natCast]
  push_cast
  rfl

/-- The exponent of the leading digit of a decimal. -/
def Decimal.leading (d : Decimal) : ℤ := d.scale + (Nat.toDigits 10 d.digits).length - 1

/-- A power of ten is not above a decimal exactly if its exponent is not above that of the leading
digit. -/
theorem Decimal.pow_le_value_iff {d : Decimal} (hd : d.digits ≠ 0) (k : ℤ) :
    10 ^ k ≤ d.value ↔ k ≤ d.leading := by
  have hlen : 0 < (Nat.toDigits 10 d.digits).length := List.length_pos_iff.2 Nat.toDigits_ne_nil
  rw [leading]
  constructor
  · intro h
    have hdigits : d.digits < 10 ^ (Nat.toDigits 10 d.digits).length :=
      (Nat.length_toDigits_le_iff (by norm_num) hlen).1 le_rfl
    have hexp := (zpow_lt_zpow_iff_right₀ (by norm_num)).1 (h.trans_lt ((d.value_lt_iff _).2 hdigits))
    omega
  · intro h
    have hdigits : ¬ d.digits < 10 ^ ((Nat.toDigits 10 d.digits).length - 1) := by
      rcases Nat.eq_zero_or_pos ((Nat.toDigits 10 d.digits).length - 1) with hone | hmore
      · rw [hone, Nat.pow_zero]
        exact fun hlt => hd (Nat.lt_one_iff.1 hlt)
      · rw [← Nat.length_toDigits_le_iff (by norm_num) hmore]
        omega
    calc (10 : ℚ) ^ k ≤ 10 ^ (((Nat.toDigits 10 d.digits).length - 1 : ℕ) + d.scale : ℤ) :=
          zpow_le_zpow_right₀ (by norm_num) (by omega)
      _ ≤ d.value := not_lt.1 fun hlt => hdigits ((d.value_lt_iff _).1 hlt)

/-! ## Writing -/

namespace Layout

theorem digitsValue_zeros_append (n : ℕ) (ds : List Char) :
    digitsValue (zeros n ++ ds) = digitsValue ds := by
  rw [digitsValue, digitsValue, zeros, Nat.ofDigitChars_append, Nat.ofDigitChars_replicate_zero, Nat.mul_zero]

theorem digitsValue_append_zeros (n : ℕ) (ds : List Char) :
    digitsValue (ds ++ zeros n) = digitsValue ds * 10 ^ n := by
  rw [digitsValue, digitsValue, zeros, Nat.ofDigitChars_append, Nat.ofDigitChars_replicate_zero, Nat.mul_comm]

section Point

variable {ds : List Char} (hne : ds ≠ []) (hds : AreDigits ds)

include hds

/-- Zeros between the point and the digits only shift the digits. -/
theorem mantissa_zeros_before (n : ℕ) :
    Mantissa ('0' :: '.' :: (zeros n ++ ds)) (digitsValue ds * 10 ^ (-n - ds.length : ℤ)) := by
  have hzero : zeros 1 ≠ [] := List.cons_ne_nil '0' []
  have hm := Mantissa.point hzero (areDigits_zeros 1) ((areDigits_zeros n).append hds)
  have hdigits : digitsValue (zeros 1 ++ (zeros n ++ ds)) = digitsValue ds := by
    rw [digitsValue_zeros_append, digitsValue_zeros_append]
  have hplaces : (-(zeros n ++ ds).length : ℤ) = -n - ds.length := by
    rw [List.length_append, zeros, List.length_replicate]
    push_cast
    ring
  rwa [hdigits, hplaces] at hm

include hne

theorem mantissa_zeros_behind (n : ℕ) : Mantissa (ds ++ zeros n) (digitsValue ds * 10 ^ (n : ℤ)) := by
  have hm := Mantissa.whole (List.append_ne_nil_of_left_ne_nil hne (zeros n)) (hds.append (areDigits_zeros n))
  rwa [digitsValue_append_zeros, Nat.cast_mul, ten_zpow_natCast] at hm

theorem mantissa_whole_mark (n : ℕ) :
    Mantissa (ds ++ zeros n ++ ['.', '0']) (digitsValue ds * 10 ^ (n : ℤ)) := by
  have hm := Mantissa.point (List.append_ne_nil_of_left_ne_nil hne (zeros n))
    (hds.append (areDigits_zeros n)) (areDigits_zeros 1)
  have hdigits : (digitsValue (ds ++ zeros n ++ zeros 1) : ℚ) * 10 ^ (-(zeros 1).length : ℤ) =
      digitsValue ds * 10 ^ (n : ℤ) := by
    rw [digitsValue_append_zeros, digitsValue_append_zeros, Nat.cast_mul, Nat.cast_mul, ten_zpow_natCast]
    simp [zeros]
  rwa [hdigits] at hm

theorem mantissa_point_inside {n : ℕ} (hn : n ≠ 0) :
    Mantissa (ds.take n ++ '.' :: ds.drop n) (digitsValue ds * 10 ^ (-(ds.length - n : ℕ) : ℤ)) := by
  have htake : ds.take n ≠ [] := fun h => (List.take_eq_nil_iff.1 h).elim hn hne
  have hplaces : AreDigits (ds.drop n) := fun c hc => hds c (List.mem_of_mem_drop hc)
  have hm := Mantissa.point htake (fun c hc => hds c (List.mem_of_mem_take hc)) hplaces
  rwa [List.take_append_drop, List.length_drop] at hm

/-- Where the point stands among the digits decides what they are multiplied with. -/
theorem mantissa_positional (L : Layout) (point : ℤ) :
    Mantissa (L.positional ds point) (digitsValue ds * 10 ^ (point - ds.length)) := by
  rw [positional]
  split
  · next hpoint =>
    have hm := mantissa_zeros_before hds (-point).toNat
    have hexp : -((-point).toNat : ℤ) - ds.length = point - ds.length := by omega
    rwa [hexp] at hm
  · next hpoint =>
    obtain ⟨n, rfl⟩ := Int.eq_ofNat_of_zero_le (le_of_not_ge hpoint)
    simp only [Int.toNat_natCast]
    split
    · next hle =>
      rw [← Int.ofNat_sub hle]
      split
      · exact mantissa_whole_mark hne hds _
      · rw [List.append_nil]
        exact mantissa_zeros_behind hne hds _
    · next hlt =>
      have hm := mantissa_point_inside hne hds (n := n) (by omega)
      have hexp : -((ds.length - n : ℕ) : ℤ) = n - ds.length := by omega
      rwa [hexp] at hm

end Point

/-- Exponent notation has one digit before the point, whatever the number of digits. -/
theorem numeral_exponential {ds : List Char} (hne : ds ≠ []) (hds : AreDigits ds) (e : ℤ) :
    ∃ m, Mantissa m (digitsValue ds * 10 ^ (1 - ds.length : ℤ)) ∧
      exponential ds e = m ++ 'e' :: exponentSign e :: Nat.toDigits 10 e.natAbs := by
  match ds with
  | [] => contradiction
  | [d] =>
    have hm := Mantissa.whole hne hds
    exact ⟨[d], by simpa using hm, rfl⟩
  | d :: d' :: rest =>
    have hm := Mantissa.point (List.cons_ne_nil d [])
      (fun c hc => hds c (List.mem_cons.2 (.inl (List.mem_singleton.1 hc))))
      (fun c hc => hds c (List.mem_cons_of_mem d hc))
    have hplaces : (-(d' :: rest).length : ℤ) = 1 - (d :: d' :: rest).length := by
      simp only [List.length_cons]
      omega
    rw [hplaces] at hm
    exact ⟨d :: '.' :: d' :: rest, hm, rfl⟩

theorem write_eq (L : Layout) (d : Decimal) : L.write d =
    if L.least ≤ d.leading ∧ d.leading ≤ L.greatest then
      L.positional (Nat.toDigits 10 d.digits) (d.leading + 1)
    else exponential (Nat.toDigits 10 d.digits) d.leading :=
  rfl

theorem mantissa_write (L : Layout) {d : Decimal} (h : L.least ≤ d.leading ∧ d.leading ≤ L.greatest) :
    Mantissa (L.write d) d.value := by
  have hm := mantissa_positional Nat.toDigits_ne_nil (areDigits_toDigits d.digits) L (d.leading + 1)
  have hscale : d.leading + 1 - (Nat.toDigits 10 d.digits).length = d.scale := by
    rw [Decimal.leading]
    omega
  rw [digitsValue_toDigits, hscale] at hm
  rw [write_eq, if_pos h]
  exact hm

/-- Outside its range a layout writes the exponent of the leading digit behind the mantissa. -/
theorem exponent_write (L : Layout) {d : Decimal} (h : ¬ (L.least ≤ d.leading ∧ d.leading ≤ L.greatest)) :
    ∃ m q, Mantissa m q ∧ q * 10 ^ d.leading = d.value ∧
      L.write d = m ++ 'e' :: exponentSign d.leading :: Nat.toDigits 10 d.leading.natAbs := by
  obtain ⟨m, hm, hwrite⟩ :=
    numeral_exponential Nat.toDigits_ne_nil (areDigits_toDigits d.digits) d.leading
  have hscale : 1 - (Nat.toDigits 10 d.digits).length + d.leading = d.scale := by
    rw [Decimal.leading]
    omega
  refine ⟨m, _, hm, ?_, ?_⟩
  · rw [digitsValue_toDigits, mul_assoc, ← zpow_add₀ (by norm_num), hscale]
    rfl
  · rw [write_eq, if_neg h, hwrite]

/-- An exponent is written exactly if the leading digit is outside the range of the layout. -/
theorem exponent_mem_write_iff (L : Layout) (d : Decimal) :
    'e' ∈ L.write d ↔ ¬ (L.least ≤ d.leading ∧ d.leading ≤ L.greatest) := by
  constructor
  · intro hmem h
    exact (mantissa_write L h).not_mem hmem
  · intro h
    obtain ⟨m, q, hm, hvalue, hwrite⟩ := exponent_write L h
    rw [hwrite]
    exact List.mem_append_right m List.mem_cons_self

/-- Behind the letter the sign of the exponent follows, whatever stands in front of the numeral. -/
theorem exponent_sign_write (L : Layout) (d : Decimal) {start front back : List Char} (hstart : 'e' ∉ start)
    (h : start ++ L.write d = front ++ 'e' :: back) : back.head? = some (exponentSign d.leading) := by
  by_cases hrange : L.least ≤ d.leading ∧ d.leading ≤ L.greatest
  · have hmem : 'e' ∈ start ++ L.write d := by
      rw [h]
      exact List.mem_append_right front List.mem_cons_self
    rcases List.mem_append.1 hmem with hmem | hmem
    · exact absurd hmem hstart
    · exact absurd hmem (mantissa_write L hrange).not_mem
  · obtain ⟨m, q, hm, hvalue, hwrite⟩ := exponent_write L hrange
    have hfront : 'e' ∉ start ++ m := fun hmem => (List.mem_append.1 hmem).elim hstart hm.not_mem
    have hback : 'e' ∉ exponentSign d.leading :: Nat.toDigits 10 d.leading.natAbs := by
      refine fun hmem => (List.mem_cons.1 hmem).elim ?_ ((areDigits_toDigits _).not_mem rfl)
      rw [exponentSign]
      split
      · decide
      · decide
    rw [hwrite, ← List.append_assoc] at h
    obtain ⟨-, -, rfl⟩ := (List.append_cons_inj_of_notMem hfront hback).1 h
    rfl

/-- What is written for a decimal stands for it. -/
theorem numeral_write (L : Layout) (d : Decimal) : Numeral (L.write d) d.value := by
  by_cases h : L.least ≤ d.leading ∧ d.leading ≤ L.greatest
  · exact .plain (mantissa_write L h)
  · obtain ⟨m, q, hm, hvalue, hwrite⟩ := exponent_write L h
    rw [hwrite, ← hvalue]
    exact .exponent hm _

end Layout

end ScopedCss
