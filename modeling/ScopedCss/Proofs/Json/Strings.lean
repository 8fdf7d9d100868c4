import Mathlib.Data.List.TakeWhile
import ScopedCss.Proofs.Json.Read

/-!
# Strings as they may be written

A character of a string stands for itself, or it is written behind a backslash: by a letter, by the
four hexadecimal digits of its code, or by those of the two halves of its surrogate pair. `Spells`
says of which characters a text is a spelling, apart from any reader or writer. The reader of strings
gets through exactly the spellings, up to the first bare quote, and the writer of documents writes one
of them; so what is written is read back, whatever follows it.
-/

namespace ScopedCss.Json

/-! ## Hexadecimal digits -/

/-- Four hexadecimal digits of either case, and their number. -/
inductive HexQuad : List Char → Nat → Prop
  | digits {a b c d : Char} {w x y z : Nat} (ha : hexValue? a = some w) (hb : hexValue? b = some x)
      (hc : hexValue? c = some y) (hd : hexValue? d = some z) :
      HexQuad [a, b, c, d] (((w * 16 + x) * 16 + y) * 16 + z)

/-- A hexadecimal digit is below 16; the two ranges of letters are checked separately. -/
theorem hexValue?_lt {c : Char} {v : Nat} (h : hexValue? c = some v) : v < 16 := by
  simp only [hexValue?, Char.isDigit, Char.le_def, UInt32.le_iff_toNat_le, Bool.and_eq_true,
    decide_eq_true_eq, ge_iff_le] at h
  split_ifs at h with hdigit hlower hupper
  · have hle : c.toNat ≤ 57 := hdigit.2
    cases h
    omega
  · have hle : c.toNat ≤ 102 := hlower.2
    cases h
    omega
  · have hle : c.toNat ≤ 70 := hupper.2
    cases h
    omega

theorem hexValue?_hexDigit {d : Nat} (h : d < 16) : hexValue? (hexDigit d) = some d := by
  revert d
  decide

theorem HexQuad.lt {w : List Char} {n : Nat} (h : HexQuad w n) : n < 0x10000 := by
  cases h with
  | digits ha hb hc hd =>
    have ha := hexValue?_lt ha
    have hb := hexValue?_lt hb
    have hc := hexValue?_lt hc
    have hd := hexValue?_lt hd
    omega

/-- Four hexadecimal digits are read, no more and no less. -/
theorem readHexQuad_eq_ok {s r : List Char} {n : Nat} :
    readHexQuad s = .ok (n, r) ↔ ∃ w, HexQuad w n ∧ s = w ++ r := by
  constructor
  · intro h
    unfold readHexQuad at h
    split at h
    · cases h
    · split at h
      · split at h
        · next ha hb hc hd =>
          cases h
          exact ⟨_, .digits ha hb hc hd, rfl⟩
        · cases h
      · cases h
  · rintro ⟨w, hw, rfl⟩
    cases hw with
    | @digits a b c d _ _ _ _ ha hb hc hd =>
      -- no character is shorter than an octet
      have hlong : ¬ octets (a :: b :: c :: d :: r) < 4 := by
        have h₁ := a.utf8Size_pos
        have h₂ := b.utf8Size_pos
        have h₃ := c.utf8Size_pos
        have h₄ := d.utf8Size_pos
        simp only [octets, List.foldr_cons]
        omega
      show readHexQuad (a :: b :: c :: d :: r) = _
      simp only [readHexQuad, if_neg hlong, ha, hb, hc, hd]

/-! ## Escapes -/

/-- The letters that may stand behind a backslash, with the characters they stand for. -/
def escapeLetters : List (Char × Char) :=
  [('"', '"'), ('\\', '\\'), ('/', '/'), ('b', '\x08'), ('f', '\x0c'), ('n', '\n'), ('r', '\r'),
    ('t', '\t')]

/-- What may stand behind `\u` for a character. -/
inductive CodeOf (c : Char) : List Char → Prop
  | unit {w : List Char} (h : HexQuad w c.toNat) : CodeOf c w
  | pair {v w : List Char} {hi lo : Nat} (hhi : hi < 0x400) (hlo : lo < 0x400)
      (hv : HexQuad v (0xD800 + hi)) (hw : HexQuad w (0xDC00 + lo))
      (hc : c.toNat = 0x10000 + hi * 0x400 + lo) : CodeOf c (v ++ '\\' :: 'u' :: w)

/-- What may stand behind a backslash for a character. -/
inductive EscapeOf (c : Char) : List Char → Prop
  | letter {e : Char} (h : (e, c) ∈ escapeLetters) : EscapeOf c [e]
  | code {w : List Char} (h : CodeOf c w) : EscapeOf c ('u' :: w)

theorem toNat_ofNat_of_lt {n : Nat} (h : n < 0xD800) : (Char.ofNat n).toNat = n := by
  rw [Char.ofNat, dif_pos (.inl h)]
  rfl

theorem toNat_ofNat_of_gt {n : Nat} (h : 0xDFFF < n) (h' : n < 0x110000) :
    (Char.ofNat n).toNat = n := by
  rw [Char.ofNat, dif_pos (.inr ⟨h, h'⟩)]
  rfl

/-- No character is half a surrogate pair. -/
theorem toNat_not_surrogate (c : Char) : c.toNat < 0xD800 ∨ 0xDFFF < c.toNat := by
  have h : c.toNat.isValidChar := c.valid
  rcases h with h | h
  · exact .inl h
  · exact .inr h.1

/-- The mark between the halves of a surrogate pair is read if it stands there. -/
theorem readPairMark_eq_ok {mark : Char} {s r : List Char} :
    readPairMark mark s = .ok ((), r) ↔ s = mark :: r := by
  cases s with
  | nil => exact iff_of_false nofun nofun
  | cons c s =>
    rw [readPairMark]
    by_cases hc : c = mark
    · rw [if_pos hc, hc]
      simp
    · rw [if_neg hc]
      refine iff_of_false nofun ?_
      intro h
      exact hc (List.cons.inj h).1

/-- Whatever is read behind `\u` is the code of the character, in four digits or as a surrogate
pair. A half of a pair that stands alone is refused, so there is no third case. -/
theorem codeOf_of_readUnicodeEscape {s r : List Char} {c : Char}
    (h : readUnicodeEscape s = .ok (c, r)) : ∃ w, CodeOf c w ∧ s = w ++ r := by
  obtain ⟨⟨n, s₁⟩, hn, h⟩ := bind_eq_ok.1 h
  obtain ⟨v, hv, hs⟩ := readHexQuad_eq_ok.1 hn
  simp only at h
  split at h
  · cases h
  · next hlow =>
    split at h
    · next hhigh =>
      obtain ⟨⟨_, s₂⟩, hslash, h⟩ := bind_eq_ok.1 h
      obtain ⟨⟨_, s₃⟩, hu, h⟩ := bind_eq_ok.1 h
      obtain ⟨⟨m, s₄⟩, hm, h⟩ := bind_eq_ok.1 h
      have hslash : s₁ = '\\' :: s₂ := readPairMark_eq_ok.1 hslash
      have hu : s₂ = 'u' :: s₃ := readPairMark_eq_ok.1 hu
      obtain ⟨w, hw, hs₃ : s₃ = w ++ s₄⟩ := readHexQuad_eq_ok.1 hm
      simp only at h
      split at h
      · next hm =>
        obtain ⟨rfl, rfl⟩ := Prod.mk.inj (Except.ok.inj h)
        obtain ⟨hi, rfl⟩ := Nat.exists_eq_add_of_le hhigh.1
        obtain ⟨lo, rfl⟩ := Nat.exists_eq_add_of_le hm.1
        have hhi : hi < 0x400 := by omega
        have hlo : lo < 0x400 := by omega
        refine ⟨_, .pair hhi hlo hv hw ?_, ?_⟩
        · rw [Nat.add_sub_cancel_left, Nat.add_sub_cancel_left]
          exact toNat_ofNat_of_gt (by omega) (by omega)
        · rw [hs, hslash, hu, hs₃, List.append_assoc]
          rfl
      · cases h
    · next hhigh =>
      cases h
      refine ⟨v, .unit ?_, hs⟩
      have hlt := hv.lt
      have hn : (Char.ofNat n).toNat = n := by
        rcases Nat.lt_or_ge n 0xD800 with hn | hn
        · exact toNat_ofNat_of_lt hn
        · exact toNat_ofNat_of_gt (by omega) (by omega)
      rw [hn]
      exact hv

/-- The other way round, both spellings of a code are read, whatever follows them. -/
theorem readUnicodeEscape_of_codeOf {c : Char} {w : List Char} (h : CodeOf c w) (r : List Char) :
    readUnicodeEscape (w ++ r) = .ok (c, r) := by
  cases h with
  | unit hw =>
    -- The code is no half of a pair, so nothing more is read.
    have hc := toNat_not_surrogate c
    refine bind_eq_ok.2 ⟨_, readHexQuad_eq_ok.2 ⟨w, hw, rfl⟩, ?_⟩
    show (if _ then _ else _) = _
    rw [if_neg (by omega), if_neg (by omega), Char.ofNat_toNat]
    rfl
  | @pair v w hi lo hhi hlo hv hw hc =>
    rw [List.append_assoc]
    refine bind_eq_ok.2 ⟨_, readHexQuad_eq_ok.2 ⟨v, hv, rfl⟩, ?_⟩
    show (if _ then _ else _) = _
    rw [if_neg (by omega), if_pos (by omega)]
    refine bind_eq_ok.2 ⟨_, readPairMark_eq_ok.2 rfl, bind_eq_ok.2 ⟨_, readPairMark_eq_ok.2 rfl, ?_⟩⟩
    refine bind_eq_ok.2 ⟨_, readHexQuad_eq_ok.2 ⟨w, hw, rfl⟩, ?_⟩
    show (if _ then _ else _) = _
    rw [if_pos (by omega), Nat.add_sub_cancel_left, Nat.add_sub_cancel_left, ← hc, Char.ofNat_toNat]
    rfl

theorem readUnicodeEscape_eq_ok {s r : List Char} {c : Char} :
    readUnicodeEscape s = .ok (c, r) ↔ ∃ w, CodeOf c w ∧ s = w ++ r := by
  constructor
  · exact codeOf_of_readUnicodeEscape
  · rintro ⟨w, hw, rfl⟩
    exact readUnicodeEscape_of_codeOf hw r

/-- An escape is read exactly if it is one of the letters or a code. -/
theorem readEscape_eq_ok {s r : List Char} {c : Char} :
    readEscape s = .ok (c, r) ↔ ∃ w, EscapeOf c w ∧ s = w ++ r := by
  constructor
  · intro h
    unfold readEscape at h
    split at h
    -- The letter `u` alone has more digits behind it.
    case h_10 =>
      obtain ⟨w, hw, rfl⟩ := readUnicodeEscape_eq_ok.1 h
      exact ⟨_, .code hw, rfl⟩
    all_goals cases h
    all_goals exact ⟨_, .letter (by decide), rfl⟩
  · rintro ⟨w, hw, rfl⟩
    cases hw with
    | letter he =>
      simp only [escapeLetters, List.mem_cons, Prod.mk.injEq, List.not_mem_nil, or_false] at he
      rcases he with ⟨rfl, rfl⟩ | ⟨rfl, rfl⟩ | ⟨rfl, rfl⟩ | ⟨rfl, rfl⟩ | ⟨rfl, rfl⟩ | ⟨rfl, rfl⟩ |
        ⟨rfl, rfl⟩ | ⟨rfl, rfl⟩
      all_goals rfl
    | code hw => exact readUnicodeEscape_of_codeOf hw r

/-! ## Characters and strings -/

/-- What may stand in a string for a character. -/
inductive SpellsChar (c : Char) : List Char → Prop
  | bare (hquote : c ≠ '"') (hslash : c ≠ '\\') (hcontrol : 0x20 ≤ c.toNat) : SpellsChar c [c]
  | escaped {w : List Char} (h : EscapeOf c w) : SpellsChar c ('\\' :: w)

/-- What may stand in a string for several characters: a spelling of each. -/
inductive Spells : List Char → List Char → Prop
  | nil : Spells [] []
  | cons {c : Char} {cs w ws : List Char} (h : SpellsChar c w) (hs : Spells cs ws) :
      Spells (c :: cs) (w ++ ws)

theorem SpellsChar.length_pos {c : Char} {w : List Char} (h : SpellsChar c w) : 0 < w.length := by
  cases h <;> exact Nat.succ_pos _

theorem Spells.length_le {cs ws : List Char} (h : Spells cs ws) : cs.length ≤ ws.length := by
  induction h with
  | nil => exact Nat.le_refl 0
  | cons hc _ ih =>
    have hpos := hc.length_pos
    rw [List.length_cons, List.length_append]
    omega

/-- A string ends, or it goes on with one more character. -/
theorem readChars_eq_ok {n : Nat} {s r cs : List Char} :
    readChars n s = .ok (cs, r) ↔
      (s = '"' :: r ∧ cs = []) ∨
      ∃ m c w t ds, n = m + 1 ∧ SpellsChar c w ∧ s = w ++ t ∧ readChars m t = .ok (ds, r) ∧
        cs = c :: ds := by
  constructor
  · intro h
    cases s with
    | nil => cases n <;> cases h
    | cons c s =>
      rw [readChars.eq_def] at h
      simp only at h
      split at h
      · next hquote =>
        cases h
        exact .inl ⟨by rw [hquote], rfl⟩
      · next hquote =>
        split at h
        · cases h
        · next hcontrol =>
          cases n with
          | zero => cases h
          | succ n =>
            simp only at h
            split at h
            · next hslash =>
              obtain ⟨⟨d, t⟩, hd, h⟩ := bind_eq_ok.1 h
              obtain ⟨⟨ds, r'⟩, hds, h⟩ := bind_eq_ok.1 h
              obtain ⟨w, hw, hs⟩ := readEscape_eq_ok.1 hd
              cases h
              have hsplit : c :: s = ('\\' :: w) ++ t := by rw [hslash, hs, List.cons_append]
              exact .inr ⟨n, d, _, t, ds, rfl, .escaped hw, hsplit, hds, rfl⟩
            · next hslash =>
              obtain ⟨⟨ds, r'⟩, hds, h⟩ := bind_eq_ok.1 h
              cases h
              exact .inr ⟨n, c, _, s, ds, rfl, .bare hquote hslash (by omega), rfl, hds, rfl⟩
  · rintro (⟨rfl, rfl⟩ | ⟨m, c, w, t, ds, rfl, hw, rfl, hds, rfl⟩)
    · cases n <;> rfl
    · cases hw with
      | bare hquote hslash hcontrol =>
        show readChars (m + 1) (c :: t) = _
        rw [readChars, if_neg hquote, if_neg (by omega), if_neg hslash]
        exact bind_eq_ok.2 ⟨_, hds, rfl⟩
      | @escaped w hw =>
        show readChars (m + 1) ('\\' :: (w ++ t)) = _
        rw [readChars, if_neg (by decide), if_neg (by decide), if_pos rfl]
        exact bind_eq_ok.2 ⟨_, readEscape_eq_ok.2 ⟨w, hw, rfl⟩, bind_eq_ok.2 ⟨_, hds, rfl⟩⟩

/-- The characters up to the closing quote are read exactly if they are a spelling, and if the
number of steps, which bounds the recursion, is at least that of the characters. -/
theorem readChars_iff {n : Nat} {s r cs : List Char} :
    readChars n s = .ok (cs, r) ↔ cs.length ≤ n ∧ ∃ ws, Spells cs ws ∧ s = ws ++ '"' :: r := by
  induction n generalizing s cs with
  | zero =>
    rw [readChars_eq_ok]
    constructor
    · rintro (⟨rfl, rfl⟩ | ⟨m, _, _, _, _, hm, _⟩)
      · exact ⟨Nat.le_refl 0, [], .nil, rfl⟩
      · cases hm
    · rintro ⟨hlen, ws, hws, rfl⟩
      cases hws with
      | nil => exact .inl ⟨rfl, rfl⟩
      | cons => exact absurd hlen (Nat.not_succ_le_zero _)
  | succ n ih =>
    rw [readChars_eq_ok]
    constructor
    · rintro (⟨rfl, rfl⟩ | ⟨m, c, w, t, ds, hm, hw, rfl, hds, rfl⟩)
      · exact ⟨Nat.zero_le _, [], .nil, rfl⟩
      · cases hm
        obtain ⟨hlen, ws, hws, rfl⟩ := ih.1 hds
        exact ⟨Nat.succ_le_succ hlen, w ++ ws, .cons hw hws, (List.append_assoc _ _ _).symm⟩
    · rintro ⟨hlen, ws, hws, rfl⟩
      cases hws with
      | nil => exact .inl ⟨rfl, rfl⟩
      | @cons c ds w ws hw hws =>
        have hds := ih.2 ⟨Nat.le_of_succ_le_succ hlen, ws, hws, rfl⟩
        exact .inr ⟨n, c, w, _, ds, rfl, hw, List.append_assoc _ _ _, hds, rfl⟩

/-- The reader of strings gets through the spellings of a text, and through nothing else. -/
theorem readString_eq_ok {s r : List Char} {t : String} :
    readString s = .ok (t, r) ↔ ∃ ws, Spells t.toList ws ∧ s = ws ++ '"' :: r := by
  constructor
  · intro h
    obtain ⟨⟨cs, r'⟩, hcs, h⟩ := bind_eq_ok.1 h
    cases h
    rw [String.toList_ofList]
    exact (readChars_iff.1 hcs).2
  · rintro ⟨ws, hws, rfl⟩
    have hlen : t.toList.length ≤ (ws ++ '"' :: r).length := by
      have h := hws.length_le
      rw [List.length_append]
      omega
    refine bind_eq_ok.2 ⟨_, readChars_iff.2 ⟨hlen, ws, hws, rfl⟩, ?_⟩
    show Except.ok (String.ofList t.toList, r) = _
    rw [String.ofList_toList]

/-! ## What is written -/

/-- The writer spells every character in one of the ways the reader knows. -/
theorem spellsChar_escapeChar (c : Char) : SpellsChar c (escapeChar c) := by
  have hletter : ∀ {e d : Char}, (e, d) ∈ escapeLetters → c = d → SpellsChar c ['\\', e] := by
    rintro e _ he rfl
    exact .escaped (.letter he)
  unfold escapeChar
  split_ifs with hquote hslash hback htab hline hfeed hreturn hcontrol
  · exact hletter (by decide) hquote
  · exact hletter (by decide) hslash
  · exact hletter (d := '\x08') (by decide) (Char.toNat_inj.1 hback)
  · exact hletter (d := '\t') (by decide) (Char.toNat_inj.1 htab)
  · exact hletter (d := '\n') (by decide) (Char.toNat_inj.1 hline)
  · exact hletter (d := '\x0c') (by decide) (Char.toNat_inj.1 hfeed)
  · exact hletter (d := '\r') (by decide) (Char.toNat_inj.1 hreturn)
  · have h₁ := hexValue?_hexDigit (d := c.toNat / 16) (by omega)
    have h₂ := hexValue?_hexDigit (d := c.toNat % 16) (by omega)
    have h₀ : hexValue? '0' = some 0 := by decide
    have hquad := HexQuad.digits h₀ h₀ h₁ h₂
    have hcode : ((0 * 16 + 0) * 16 + c.toNat / 16) * 16 + c.toNat % 16 = c.toNat := by omega
    rw [hcode] at hquad
    exact .escaped (.code (.unit hquad))
  · exact .bare hquote hslash (by omega)

theorem spells_escaped (cs : List Char) : Spells cs (cs.flatMap escapeChar) := by
  induction cs with
  | nil => exact .nil
  | cons c cs ih =>
    rw [List.flatMap_cons]
    exact .cons (spellsChar_escapeChar c) ih

theorem writeString_append (t : String) (r : List Char) :
    writeString t ++ r = '"' :: (t.toList.flatMap escapeChar ++ '"' :: r) := by
  simp only [writeString, List.cons_append, List.append_assoc, List.nil_append]

theorem readString_escaped (t : String) (r : List Char) :
    readString (t.toList.flatMap escapeChar ++ '"' :: r) = .ok (t, r) :=
  readString_eq_ok.2 ⟨_, spells_escaped t.toList, rfl⟩

/-- A written string shows by itself where it ends. -/
theorem writeString_append_inj {t t' : String} {r r' : List Char}
    (h : writeString t ++ r = writeString t' ++ r') : t = t' ∧ r = r' := by
  rw [writeString_append, writeString_append] at h
  have hread := readString_escaped t r
  rw [(List.cons.inj h).2, readString_escaped t' r'] at hread
  cases hread
  exact ⟨rfl, rfl⟩

/-! ## Texts that are strings -/

/-- A text that is a string, between blanks. -/
def IsStringText (text t : String) : Prop :=
  ∃ before ws after, (∀ c ∈ before, isBlank c = true) ∧ Spells t.toList ws ∧
    (∀ c ∈ after, isBlank c = true) ∧ text.toList = before ++ '"' :: (ws ++ '"' :: after)

/-- What is in front of the first character that is not blank is nothing but blanks. -/
theorem skipBlanks_eq_cons {c : Char} (hc : isBlank c = false) {s r : List Char} :
    skipBlanks s = c :: r ↔ ∃ before, (∀ d ∈ before, isBlank d = true) ∧ s = before ++ c :: r := by
  constructor
  · intro h
    refine ⟨s.takeWhile isBlank, fun d => List.mem_takeWhile_imp, ?_⟩
    rw [← h]
    exact List.takeWhile_append_dropWhile.symm
  · rintro ⟨before, hbefore, rfl⟩
    rw [skipBlanks, List.dropWhile_append_of_pos hbefore, List.dropWhile_cons_of_neg (by simp [hc])]

theorem readEnd_eq_ok {s : List Char} : readEnd s = .ok () ↔ ∀ c ∈ s, isBlank c = true := by
  rw [← List.dropWhile_eq_nil_iff]
  unfold readEnd
  split
  · next hs => exact iff_of_true rfl hs
  · next hs => exact iff_of_false nofun hs

/-- A text is a string with blanks around it exactly if the reader of strings gets through it. -/
theorem isStringText_iff {text t : String} :
    IsStringText text t ↔ ∃ s r, skipBlanks text.toList = '"' :: s ∧ readString s = .ok (t, r) ∧
      readEnd r = .ok () := by
  constructor
  · rintro ⟨before, ws, after, hbefore, hws, hafter, htext⟩
    refine ⟨ws ++ '"' :: after, after, ?_, readString_eq_ok.2 ⟨ws, hws, rfl⟩, readEnd_eq_ok.2 hafter⟩
    exact (skipBlanks_eq_cons (by decide)).2 ⟨before, hbefore, htext⟩
  · rintro ⟨s, r, hs, hread, hend⟩
    obtain ⟨before, hbefore, htext⟩ := (skipBlanks_eq_cons (by decide)).1 hs
    obtain ⟨ws, hws, rfl⟩ := readString_eq_ok.1 hread
    exact ⟨before, ws, r, hbefore, hws, readEnd_eq_ok.1 hend, htext⟩

theorem isStringText_write (t : String) : IsStringText (string t).write t := by
  refine ⟨[], _, [], nofun, spells_escaped t.toList, nofun, ?_⟩
  rw [write, String.toList_ofList]
  rfl

/-- A text is read as a document that is a string exactly if it is a spelling of this string. -/
theorem read_eq_string {text t : String} : read text = .ok (.string t) ↔ IsStringText text t := by
  rw [isStringText_iff, read, readAll_eq_ok]
  constructor
  · rintro ⟨r, hread, hend⟩
    obtain ⟨s, hs, hread⟩ := readValue_eq_string.1 hread
    exact ⟨s, r, hs, hread, hend⟩
  · rintro ⟨s, r, hs, hread, hend⟩
    exact ⟨r, readValue_eq_string.2 ⟨s, hs, hread⟩, hend⟩

end ScopedCss.Json
