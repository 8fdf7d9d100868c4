import Mathlib.Logic.ExistsUnique
import Mathlib.Logic.Function.Basic
import ScopedCss.ContentHash

/-!
# How faithful names and hashes are

A name has at most six letters, since there are fewer words of 32 bits than there are numerals of six
digits. It tells which word it was made from, but for one pair: 0 and 52 are both written with the letter
of zero. A longer numeral may begin with this letter too, and then it stands for 52, since division goes
on above 52 only and leaves at least 1.

Folding a unit into a word can be undone, because 33 is odd and has an inverse among the words of 32 bits.
So every text permutes the seeds, and what is folded in afterwards keeps two words apart that are apart
already.
-/

namespace ScopedCss

/-! ## Letter numerals -/

theorem letterDigits_of_lt {x : Nat} (h : 52 < x) :
    letterDigits x = letterDigits (x / 52) ++ [x % 52] := by
  rw [letterDigits, if_pos h]

theorem letterDigits_of_le {x : Nat} (h : x ≤ 52) : letterDigits x = [x % 52] := by
  rw [letterDigits, if_neg (Nat.not_lt.2 h)]

/-- A value below a power of 52 has at most as many digits as the exponent says. -/
theorem length_letterDigits_le {x n : Nat} (h : x < Nat.pow 52 (n + 1)) :
    (letterDigits x).length ≤ n + 1 := by
  induction x using letterDigits.induct generalizing n with
  | case1 x hx ih =>
    rw [letterDigits_of_lt hx, List.length_append, List.length_singleton]
    cases n with
    | zero =>
      have hsmall : Nat.pow 52 (0 + 1) = 52 := rfl
      omega
    | succ n =>
      have hpow : Nat.pow 52 (n + 1 + 1) = Nat.pow 52 (n + 1) * 52 := rfl
      have hdiv : x / 52 < Nat.pow 52 (n + 1) := by
        rw [hpow] at h
        exact Nat.div_lt_of_lt_mul (Nat.mul_comm 52 _ ▸ h)
      exact Nat.succ_le_succ (ih hdiv)
  | case2 x hx =>
    rw [letterDigits_of_le (Nat.not_lt.1 hx), List.length_singleton]
    exact Nat.succ_le_succ (Nat.zero_le n)

/-- One digit is all there is up to 52, not only below, since 52 itself is not divided any more. -/
theorem length_letterDigits_eq_one_iff {x : Nat} : (letterDigits x).length = 1 ↔ x ≤ 52 := by
  constructor
  · intro h
    by_contra hx
    rw [letterDigits_of_lt (Nat.not_le.1 hx), List.length_append, List.length_singleton] at h
    have hpos : 0 < (letterDigits (x / 52)).length := List.length_pos_iff.2 (letterDigits_ne_nil _)
    omega
  · intro h
    rw [letterDigits_of_le h, List.length_singleton]

/-- Only 0 and 52 have the same digits. -/
theorem letterDigits_eq_iff {x y : Nat} :
    letterDigits x = letterDigits y ↔ x = y ∨ (x = 0 ∧ y = 52) ∨ (x = 52 ∧ y = 0) := by
  constructor
  · intro h
    have hshort : x ≤ 52 ↔ y ≤ 52 := by
      rw [← length_letterDigits_eq_one_iff, ← length_letterDigits_eq_one_iff, h]
    induction x using letterDigits.induct generalizing y with
    | case1 x hx ih =>
      have hy : 52 < y := by omega
      rw [letterDigits_of_lt hx, letterDigits_of_lt hy] at h
      obtain ⟨hlead, hlast⟩ := List.append_inj' h rfl
      have hmod : x % 52 = y % 52 := List.singleton_inj.1 hlast
      have hdiv : x / 52 = y / 52 := by
        -- Neither quotient is 0, so the exception is for shorter numerals.
        have hshort' : x / 52 ≤ 52 ↔ y / 52 ≤ 52 := by
          rw [← length_letterDigits_eq_one_iff, ← length_letterDigits_eq_one_iff, hlead]
        rcases ih hlead hshort' with e | ⟨e, -⟩ | ⟨-, e⟩
        · exact e
        · omega
        · omega
      omega
    | case2 x hx =>
      have hx' : x ≤ 52 := Nat.not_lt.1 hx
      have hy : y ≤ 52 := hshort.1 hx'
      rw [letterDigits_of_le hx', letterDigits_of_le hy] at h
      have hmod : x % 52 = y % 52 := List.singleton_inj.1 h
      omega
  · rintro (rfl | ⟨rfl, rfl⟩ | ⟨rfl, rfl⟩)
    · rfl
    · rw [letterDigits_of_le (by omega), letterDigits_of_le (by omega)]
    · rw [letterDigits_of_le (by omega), letterDigits_of_le (by omega)]

/-- The digit that a letter stands for. -/
def letterDigit (c : Char) : Nat := if c.toNat < 97 then c.toNat - 39 else c.toNat - 97

theorem letterDigit_digitLetter : ∀ d < 52, letterDigit (digitLetter d) = d := by decide

theorem map_letterDigit_letterNumeral (x : Nat) :
    (letterNumeral x).toList.map letterDigit = letterDigits x := by
  rw [letterNumeral, String.toList_ofList, List.map_map]
  calc (letterDigits x).map (letterDigit ∘ digitLetter)
      = (letterDigits x).map id :=
        List.map_congr_left fun d hd => letterDigit_digitLetter d (letterDigits_lt x d hd)
    _ = letterDigits x := List.map_id _

theorem letterNumeral_eq_iff {x y : Nat} :
    letterNumeral x = letterNumeral y ↔ x = y ∨ (x = 0 ∧ y = 52) ∨ (x = 52 ∧ y = 0) := by
  rw [← letterDigits_eq_iff]
  constructor
  · intro h
    rw [← map_letterDigit_letterNumeral, ← map_letterDigit_letterNumeral, h]
  · intro h
    rw [letterNumeral, letterNumeral, h]

/-! ## Words -/

/-- A word of 32 bits has a name of one to six letters. -/
theorem length_letterNumeral (w : UInt32) :
    1 ≤ (letterNumeral w.toNat).length ∧ (letterNumeral w.toNat).length ≤ 6 := by
  have hword : w.toNat < Nat.pow 52 6 := by
    have hlt : w.toNat < 4294967296 := w.toNat_lt
    have hpow : Nat.pow 52 6 = 19770609664 := rfl
    omega
  rw [letterNumeral, String.length_ofList, List.length_map]
  constructor
  · exact List.length_pos_iff.2 (letterDigits_ne_nil _)
  · exact length_letterDigits_le hword

theorem letterNumeral_toNat_eq_iff (a b : UInt32) :
    letterNumeral a.toNat = letterNumeral b.toNat ↔ a = b ∨ (a = 0 ∧ b = 52) ∨ (a = 52 ∧ b = 0) := by
  rw [letterNumeral_eq_iff, ← UInt32.toNat_inj, ← UInt32.toNat_inj, ← UInt32.toNat_inj,
    ← UInt32.toNat_inj, ← UInt32.toNat_inj]
  rfl

/-- The numeral of a word is a class name of one to six letters, so a text always has an identifier. Two
different words have different numerals, unless they are 0 and 52. -/
theorem letterNumeral_names_words :
    (∀ w : UInt32, ∃ n, ClassName.ofText (letterNumeral w.toNat) = .ok n ∧
      n.text = letterNumeral w.toNat ∧ 1 ≤ n.text.length ∧ n.text.length ≤ 6 ∧
      n.text.toList.all Char.isAlpha = true) ∧
    (∀ (h : ContentHash) (t : String),
      ClassName.ofText (letterNumeral (h.ofText t).toNat) = .ok (h.identifier t)) ∧
    ∀ a b : UInt32, letterNumeral a.toNat = letterNumeral b.toNat ↔
      a = b ∨ (a = 0 ∧ b = 52) ∨ (a = 52 ∧ b = 0) := by
  refine ⟨?_, ?_, letterNumeral_toNat_eq_iff⟩
  · intro w
    have hclass : IsClassText (letterNumeral w.toNat) := isClassText_letterNumeral _
    obtain ⟨hpos, hle⟩ := length_letterNumeral w
    exact ⟨⟨_, hclass⟩, ClassName.ofText_text ⟨_, hclass⟩, rfl, hpos, hle,
      List.all_eq_true.2 hclass.2⟩
  · intro h t
    exact ClassName.ofText_text (h.identifier t)

/-- A numeral that begins with the letter of zero stands for a first digit of 52. -/
example : letterNumeral 52 = "a" ∧ letterNumeral 0 = "a" ∧ letterNumeral 2709 = "af" := by
  decide +kernel

/-! ## Folding units -/

namespace ContentHash

open Text

/-- For a fixed unit every word comes out of exactly one word, since 33 has an inverse modulo 2^32
and the exclusive-or undoes itself. -/
theorem bijective_step (unit : UInt16) : Function.Bijective (step unit) := by
  have hmul : Function.Bijective fun w : UInt32 => w * 33 := by
    -- The inverse of 33 among the words.
    have hinv : (33 * 1041204193 : UInt32) = 1 := by decide
    have hinv' : (1041204193 * 33 : UInt32) = 1 := by decide
    refine Function.bijective_iff_has_inverse.2 ⟨fun w => w * 1041204193, ?_, ?_⟩
    · intro w
      show w * 33 * 1041204193 = w
      rw [UInt32.mul_assoc, hinv, UInt32.mul_one]
    · intro w
      show w * 1041204193 * 33 = w
      rw [UInt32.mul_assoc, hinv', UInt32.mul_one]
  have hxor : Function.Involutive fun w : UInt32 => w ^^^ unit.toUInt32 := by
    intro w
    show w ^^^ unit.toUInt32 ^^^ unit.toUInt32 = w
    rw [UInt32.xor_assoc, UInt32.xor_self, UInt32.xor_zero]
  exact hxor.bijective.comp hmul

theorem bijective_foldr_step (units : List UInt16) :
    Function.Bijective fun w : UInt32 => units.foldr step w := by
  induction units with
  | nil => exact Function.bijective_id
  | cons unit units ih => exact (bijective_step unit).comp ih

/-- Two units that are folded into the same word are told apart. -/
theorem step_left_inj {u v : UInt16} {w : UInt32} (h : step u w = step v w) : u = v := by
  have hwide : u.toUInt32 = v.toUInt32 := (UInt32.xor_right_inj (w * 33)).1 h
  exact UInt16.toUInt32_inj.1 hwide

/-- Two lists of the same length that differ at one place only. -/
def DifferOnce {α : Type} (as bs : List α) : Prop :=
  as.length = bs.length ∧ ∃! i : Nat, as[i]? ≠ bs[i]?

/-- Lists of one length that differ at one place only are alike before it and behind it. -/
theorem DifferOnce.exists_split {α : Type} {as bs : List α} (h : DifferOnce as bs) :
    ∃ before a b after, a ≠ b ∧ as = before ++ a :: after ∧ bs = before ++ b :: after := by
  obtain ⟨hlength, i, hne, honly⟩ := h
  have hsame : ∀ j, j ≠ i → as[j]? = bs[j]? := fun j hj => by_contra fun hd => hj (honly j hd)
  have hi : i < as.length := by
    by_contra hi
    have hle : as.length ≤ i := Nat.not_lt.1 hi
    exact hne (by rw [List.getElem?_eq_none hle, List.getElem?_eq_none (hlength ▸ hle)])
  have hi' : i < bs.length := hlength ▸ hi
  have htake : as.take i = bs.take i := by
    apply List.ext_getElem?
    intro j
    rw [List.getElem?_take, List.getElem?_take]
    split
    · next hj => exact hsame j (Nat.ne_of_lt hj)
    · rfl
  have hdrop : as.drop (i + 1) = bs.drop (i + 1) := by
    apply List.ext_getElem?
    intro j
    rw [List.getElem?_drop, List.getElem?_drop]
    exact hsame _ (by omega)
  refine ⟨as.take i, as[i], bs[i], as.drop (i + 1), ?_, ?_, ?_⟩
  · intro e
    rw [List.getElem?_eq_getElem hi, List.getElem?_eq_getElem hi', e] at hne
    exact hne rfl
  · rw [← List.drop_eq_getElem_cons hi, List.take_append_drop]
  · rw [htake, hdrop, ← List.drop_eq_getElem_cons hi', List.take_append_drop]

theorem foldr_step_ne {us vs : List UInt16} (h : DifferOnce us vs) (w : UInt32) :
    us.foldr step w ≠ vs.foldr step w := by
  obtain ⟨before, u, v, after, hne, rfl, rfl⟩ := h.exists_split
  rw [List.foldr_append, List.foldr_append]
  intro e
  have hstep : step u (after.foldr step w) = step v (after.foldr step w) :=
    (bijective_foldr_step before).1 e
  exact hne (step_left_inj hstep)

/-! ## Hashes of texts -/

theorem length_identifier (h : ContentHash) (t : String) :
    1 ≤ (h.identifier t).text.length ∧ (h.identifier t).text.length ≤ 6 :=
  length_letterNumeral (h.ofText t)

theorem ofText_append (h : ContentHash) (p s : String) :
    h.ofText (p ++ s) = (⟨h.ofText s⟩ : ContentHash).ofText p := by
  rw [ofText, ofText, ofText, units16_append, List.foldr_append]

theorem bijective_ofText (t : String) :
    Function.Bijective fun seed : UInt32 => (⟨seed⟩ : ContentHash).ofText t :=
  bijective_foldr_step (units16 t)

theorem identifier_eq_iff (h : ContentHash) (s t : String) :
    h.identifier s = h.identifier t ↔ h.ofText s = h.ofText t ∨
      (h.ofText s = 0 ∧ h.ofText t = 52) ∨ (h.ofText s = 52 ∧ h.ofText t = 0) := by
  rw [← letterNumeral_toNat_eq_iff, identifier, identifier, ClassName.mk.injEq]

/-- What stands in front of a text is folded into the hash of the text as into a seed, and every text
permutes the seeds. So two texts of the same number of units that differ in one unit have different
hashes, wherever that unit stands and whatever the seed is, and different identifiers unless the hashes
are 0 and 52. Two texts have the same hash exactly if they have with the same text in front of both. -/
theorem ofText_detects_unit_edit :
    (∀ (h : ContentHash) (p s : String), h.ofText (p ++ s) = (⟨h.ofText s⟩ : ContentHash).ofText p) ∧
    (∀ t : String, Function.Bijective fun seed : UInt32 => (⟨seed⟩ : ContentHash).ofText t) ∧
    (∀ (h : ContentHash) (s t : String), DifferOnce (units16 s) (units16 t) →
      h.ofText s ≠ h.ofText t ∧ (h.identifier s = h.identifier t ↔
        (h.ofText s = 0 ∧ h.ofText t = 52) ∨ (h.ofText s = 52 ∧ h.ofText t = 0))) ∧
    ∀ (h : ContentHash) (p s t : String),
      h.ofText (p ++ s) = h.ofText (p ++ t) ↔ h.ofText s = h.ofText t := by
  refine ⟨ofText_append, bijective_ofText, ?_, ?_⟩
  · intro h s t hedit
    have hne : h.ofText s ≠ h.ofText t := foldr_step_ne hedit h.seed
    refine ⟨hne, ?_⟩
    rw [identifier_eq_iff, or_iff_right hne]
  · intro h p s t
    rw [ofText_append, ofText_append]
    exact (bijective_ofText p).1.eq_iff

/-- Two texts that differ in the second half of a surrogate pair. Under the seed 0, the texts of one unit
each with the hashes 0 and 52 have the same identifier. -/
theorem ofText_detects_unit_edit_surrogate :
    DifferOnce (units16 "a😀b") (units16 "a😁b") ∧
      standard.identifier "a😀b" ≠ standard.identifier "a😁b" ∧
      DifferOnce (units16 "\x00") (units16 "4") ∧
      (⟨0⟩ : ContentHash).identifier "\x00" = (⟨0⟩ : ContentHash).identifier "4" := by
  have hunits : units16 "a😀b" = [97, 0xD83D, 0xDE00, 98] ∧
      units16 "a😁b" = [97, 0xD83D, 0xDE01, 98] ∧ units16 "\x00" = [0] ∧ units16 "4" = [52] := by
    decide +kernel
  obtain ⟨ha, hb, hc, hd⟩ := hunits
  have hpair : DifferOnce (units16 "a😀b") (units16 "a😁b") := by
    rw [ha, hb]
    refine ⟨rfl, 2, by decide, ?_⟩
    intro i hi
    match i with
    | 0 | 1 | 3 => exact absurd rfl hi
    | 2 => rfl
    | _ + 4 => exact absurd rfl hi
  have hzero : DifferOnce (units16 "\x00") (units16 "4") := by
    rw [hc, hd]
    refine ⟨rfl, 0, by decide, ?_⟩
    intro i hi
    match i with
    | 0 => rfl
    | _ + 1 => exact absurd rfl hi
  have hedit := ofText_detects_unit_edit.2.2.1
  refine ⟨hpair, ?_, hzero, ?_⟩
  · rw [ne_eq, (hedit standard _ _ hpair).2]
    decide +kernel
  · rw [(hedit ⟨0⟩ _ _ hzero).2]
    decide +kernel

end ContentHash

end ScopedCss
