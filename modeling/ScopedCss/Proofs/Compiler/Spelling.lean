import ScopedCss.Proofs.Compiler.Meaning
import ScopedCss.Proofs.Compiler.Plain
import ScopedCss.Proofs.Compiler.Variables

/-!
# Names that are spelled alike

A name without dashes can be read off its hyphenated characters: each dash came in with a capital. The
one thing that joins two names is the dash that is put in front of `ms-`, since the capital of `Ms` puts
it there as well: `msFlex` and `MsFlex` both are `-ms-flex`, and there are no other two names like them.
A hyphenated name has no capitals and does not start with `ms-`, so hyphenating it again changes nothing.
-/

namespace ScopedCss

/-! ## Reading a name off its spelling -/

/-- The characters of a name without dashes, read off their spelling. -/
def unhyphenated : List Char → List Char
  | '-' :: c :: cs => c.toUpper :: unhyphenated cs
  | c :: cs => c :: unhyphenated cs
  | [] => []

theorem toUpper_toLower_of_isUpper {c : Char} (hc : c.isUpper = true) : c.toLower.toUpper = c := by
  refine forall_isUpper (P := fun c => c.toLower.toUpper = c) ?_ hc
  decide

theorem isUpper_toLower_of_isUpper {c : Char} (hc : c.isUpper = true) : c.toLower.isUpper = false := by
  refine forall_isUpper (P := fun c => c.toLower.isUpper = false) ?_ hc
  decide

/-- A character that is no dash is read as itself. -/
theorem unhyphenated_cons {c : Char} (hc : c ≠ '-') (cs : List Char) :
    unhyphenated (c :: cs) = c :: unhyphenated cs := by
  conv_lhs => unfold unhyphenated
  split
  · next e => exact absurd (List.cons.inj e).1 hc
  · next e =>
    obtain ⟨rfl, rfl⟩ := List.cons.inj e
    rfl
  · next e => cases e

/-- Names without dashes are read back from their hyphenated characters. -/
theorem unhyphenated_flatMap {cs : List Char} (h : '-' ∉ cs) :
    unhyphenated (cs.flatMap hyphenateChar) = cs := by
  induction cs with
  | nil => rfl
  | cons c cs ih =>
    obtain ⟨hc, hcs⟩ := not_or.1 fun e => h (List.mem_cons.2 e)
    rw [List.flatMap_cons, hyphenateChar]
    by_cases hupper : c.isUpper = true
    · rw [if_pos hupper]
      show c.toLower.toUpper :: unhyphenated (cs.flatMap hyphenateChar) = c :: cs
      rw [toUpper_toLower_of_isUpper hupper, ih hcs]
    · rw [if_neg hupper, List.singleton_append, unhyphenated_cons (Ne.symm hc), ih hcs]

theorem flatMap_hyphenateChar_inj {cs ds : List Char} (hcs : '-' ∉ cs) (hds : '-' ∉ ds)
    (h : cs.flatMap hyphenateChar = ds.flatMap hyphenateChar) : cs = ds := by
  rw [← unhyphenated_flatMap hcs, ← unhyphenated_flatMap hds, h]

/-! ## The vendor prefix -/

theorem flatMap_hyphenateChar_of_isUpper {c : Char} (hc : c.isUpper = true) (cs : List Char) :
    (c :: cs).flatMap hyphenateChar = '-' :: c.toLower :: cs.flatMap hyphenateChar := by
  rw [List.flatMap_cons, hyphenateChar, if_pos hc]
  rfl

/-- Of the names without dashes, those are spelled with `ms-` in front that have a capital after `ms`. -/
theorem prefix_flatMap_iff {cs : List Char} (h : '-' ∉ cs) :
    ['m', 's', '-'] <+: cs.flatMap hyphenateChar ↔
      ∃ c rest, c.isUpper = true ∧ cs = 'm' :: 's' :: c :: rest := by
  constructor
  · rintro ⟨spelled, hspelled⟩
    have hcs : cs = 'm' :: 's' :: unhyphenated ('-' :: spelled) := by
      rw [← unhyphenated_flatMap h, ← hspelled]
      rfl
    have hrest : '-' :: spelled = (unhyphenated ('-' :: spelled)).flatMap hyphenateChar := by
      rw [hcs] at hspelled
      exact (List.cons.inj (List.cons.inj hspelled).2).2
    -- The dash comes from the first character of what is left.
    cases hname : unhyphenated ('-' :: spelled) with
    | nil =>
      rw [hname] at hrest
      cases hrest
    | cons c rest =>
      rw [hname] at hcs hrest
      refine ⟨c, rest, ?_, hcs⟩
      by_contra hc
      rw [List.flatMap_cons, hyphenateChar, if_neg hc] at hrest
      have hdash : '-' = c := (List.cons.inj hrest).1
      apply h
      rw [hcs, ← hdash]
      simp
  · rintro ⟨c, rest, hc, rfl⟩
    refine ⟨c.toLower :: rest.flatMap hyphenateChar, ?_⟩
    have hms : ('m' :: 's' :: c :: rest).flatMap hyphenateChar =
        'm' :: 's' :: (c :: rest).flatMap hyphenateChar := rfl
    rw [hms, flatMap_hyphenateChar_of_isUpper hc]
    rfl

theorem hyphenateChars_of_starts {cs : List Char} (h : ['m', 's', '-'] <+: cs.flatMap hyphenateChar) :
    hyphenateChars cs = '-' :: cs.flatMap hyphenateChar :=
  if_pos (List.isPrefixOf_iff_prefix.2 h)

theorem hyphenateChars_of_not_starts {cs : List Char}
    (h : ¬ ['m', 's', '-'] <+: cs.flatMap hyphenateChar) :
    hyphenateChars cs = cs.flatMap hyphenateChar :=
  if_neg fun e => h (List.isPrefixOf_iff_prefix.1 e)

/-- Two names that differ in the first letter only, `m` in one and `M` in the other, and go on with an
`s` and a capital. -/
def VendorPair (a b : String) : Prop :=
  ∃ c rest, c.isUpper = true ∧ a.toList = 'm' :: 's' :: c :: rest ∧ b.toList = 'M' :: 's' :: c :: rest

theorem VendorPair.ne {a b : String} (h : VendorPair a b) : a ≠ b := by
  rintro rfl
  obtain ⟨c, rest, -, hsmall, hcapital⟩ := h
  rw [hsmall] at hcapital
  cases hcapital

/-- The names of such a pair are hyphenated alike. -/
theorem VendorPair.hyphenate_eq {a b : String} (h : VendorPair a b) : hyphenate a = hyphenate b := by
  obtain ⟨c, rest, hc, ha, hb⟩ := h
  have hsmall : ('m' :: 's' :: c :: rest).flatMap hyphenateChar =
      'm' :: 's' :: '-' :: c.toLower :: rest.flatMap hyphenateChar := by
    rw [← flatMap_hyphenateChar_of_isUpper hc rest]
    rfl
  have hcapital : ('M' :: 's' :: c :: rest).flatMap hyphenateChar =
      '-' :: 'm' :: 's' :: '-' :: c.toLower :: rest.flatMap hyphenateChar := by
    rw [← flatMap_hyphenateChar_of_isUpper hc rest]
    rfl
  have hstart : ['m', 's', '-'] <+: ('m' :: 's' :: c :: rest).flatMap hyphenateChar := by
    rw [hsmall]
    exact ⟨_, rfl⟩
  have hnot : ¬ ['m', 's', '-'] <+: ('M' :: 's' :: c :: rest).flatMap hyphenateChar := by
    rw [hcapital]
    rintro ⟨_, e⟩
    cases e
  rw [hyphenate, hyphenate, ha, hb, hyphenateChars_of_starts hstart, hyphenateChars_of_not_starts hnot,
    hsmall, hcapital]

/-- If only one of two spellings has the dash of the prefix and they come out alike, the other one starts
with `Ms`. -/
theorem vendorPair_of_starts {a b : String} (ha : '-' ∉ a.toList) (hb : '-' ∉ b.toList)
    (hstart : ['m', 's', '-'] <+: a.toList.flatMap hyphenateChar)
    (h : '-' :: a.toList.flatMap hyphenateChar = b.toList.flatMap hyphenateChar) : VendorPair a b := by
  obtain ⟨c, rest, hc, hname⟩ := (prefix_flatMap_iff ha).1 hstart
  refine ⟨c, rest, hc, hname, ?_⟩
  have hcapital : '-' ∉ 'M' :: 's' :: c :: rest := by
    rw [hname] at ha
    simpa using ha
  apply flatMap_hyphenateChar_inj hb hcapital
  rw [← h, hname]
  rfl

/-- There are no other two names without dashes that are hyphenated alike. If both or neither of
them begin with `ms-` once their capitals are replaced, this is the injectivity of the replacement;
otherwise the dash in front makes them a pair. -/
theorem hyphenate_eq_iff {a b : String} (ha : '-' ∉ a.toList) (hb : '-' ∉ b.toList) :
    hyphenate a = hyphenate b ↔ a = b ∨ VendorPair a b ∨ VendorPair b a := by
  constructor
  · intro h
    have hchars : hyphenateChars a.toList = hyphenateChars b.toList := String.ofList_inj.1 h
    have hsame : a.toList.flatMap hyphenateChar = b.toList.flatMap hyphenateChar → a = b := fun e =>
      String.toList_inj.1 (flatMap_hyphenateChar_inj ha hb e)
    by_cases hpa : ['m', 's', '-'] <+: a.toList.flatMap hyphenateChar
    · rw [hyphenateChars_of_starts hpa] at hchars
      by_cases hpb : ['m', 's', '-'] <+: b.toList.flatMap hyphenateChar
      · rw [hyphenateChars_of_starts hpb] at hchars
        exact .inl (hsame (List.cons.inj hchars).2)
      · rw [hyphenateChars_of_not_starts hpb] at hchars
        exact .inr (.inl (vendorPair_of_starts ha hb hpa hchars))
    · rw [hyphenateChars_of_not_starts hpa] at hchars
      by_cases hpb : ['m', 's', '-'] <+: b.toList.flatMap hyphenateChar
      · rw [hyphenateChars_of_starts hpb] at hchars
        exact .inr (.inr (vendorPair_of_starts hb ha hpb hchars.symm))
      · rw [hyphenateChars_of_not_starts hpb] at hchars
        exact .inl (hsame hchars)
  · rintro (rfl | h | h)
    · rfl
    · exact h.hyphenate_eq
    · exact h.hyphenate_eq.symm

/-! ## Names that are spelled already -/

/-- What a character is hyphenated to has no capitals. -/
theorem isUpper_of_mem_hyphenateChar {c d : Char} (h : d ∈ hyphenateChar c) : d.isUpper = false := by
  unfold hyphenateChar at h
  split at h
  · next hc =>
    rcases List.mem_cons.1 h with rfl | h
    · rfl
    · rw [List.mem_singleton.1 h]
      exact isUpper_toLower_of_isUpper hc
  · next hc =>
    rw [List.mem_singleton.1 h]
    exact Bool.eq_false_iff.2 hc

/-- Hyphenating twice is hyphenating once: no capital is left, and what began with `ms-` begins with
a dash now. -/
theorem hyphenateChars_hyphenateChars (cs : List Char) :
    hyphenateChars (hyphenateChars cs) = hyphenateChars cs := by
  have hsmall : ∀ d ∈ cs.flatMap hyphenateChar, d.isUpper = false := by
    intro d hd
    obtain ⟨c, -, hd⟩ := List.mem_flatMap.1 hd
    exact isUpper_of_mem_hyphenateChar hd
  by_cases hstart : ['m', 's', '-'] <+: cs.flatMap hyphenateChar
  · rw [hyphenateChars_of_starts hstart]
    have hself : ('-' :: cs.flatMap hyphenateChar).flatMap hyphenateChar =
        '-' :: cs.flatMap hyphenateChar := by
      rw [flatMap_hyphenateChar_eq_self_iff, List.forall_mem_cons]
      exact ⟨rfl, hsmall⟩
    have hnot : ¬ ['m', 's', '-'] <+: ('-' :: cs.flatMap hyphenateChar).flatMap hyphenateChar := by
      rw [hself]
      rintro ⟨_, e⟩
      cases e
    rw [hyphenateChars_of_not_starts hnot, hself]
  · have hself : (cs.flatMap hyphenateChar).flatMap hyphenateChar = cs.flatMap hyphenateChar :=
      (flatMap_hyphenateChar_eq_self_iff _).2 hsmall
    rw [hyphenateChars_of_not_starts hstart, hyphenateChars_of_not_starts (by rwa [hself]), hself]

theorem hyphenate_hyphenate (name : String) : hyphenate (hyphenate name) = hyphenate name := by
  rw [hyphenate, hyphenate, String.toList_ofList, hyphenateChars_hyphenateChars]

/-! ## Blocks -/

/-- Null values leave no trace in a body. -/
theorem bodyText_filter (ps : List (String × StyleValue)) :
    bodyText (ps.filter fun p => !p.2.isNull) = bodyText ps := by
  induction ps with
  | nil => rfl
  | cons p ps ih =>
    obtain ⟨name, v⟩ := p
    cases v with
    | text s => exact congrArg (declarationText (hyphenate name) (.text s) ++ ·) ih
    | number x => exact congrArg (declarationText (hyphenate name) (.number x) ++ ·) ih
    | null =>
      have hnull : bodyText ((name, .null) :: ps) = bodyText ps := by
        rw [bodyText, declarationText]
        exact String.empty_append
      rw [hnull]
      exact ih

/-- The names under which a block is rendered, in order. -/
def Declarations.renderedNames (d : Declarations) : List String :=
  d.withoutNulls.keys.map hyphenate

/-- A block renders every name at most once exactly if it has no two names that make a pair. -/
theorem Declarations.nodup_renderedNames_iff {d : Declarations}
    (hd : ∀ name ∈ d.withoutNulls.keys, '-' ∉ name.toList) :
    d.renderedNames.Nodup ↔
      ∀ a ∈ d.withoutNulls.keys, ∀ b ∈ d.withoutNulls.keys, ¬ VendorPair a b := by
  have hkeys : d.withoutNulls.keys.Nodup := d.withoutNulls.nodup_keys
  rw [renderedNames, List.nodup_map_iff_inj_on hkeys]
  constructor
  · intro hinj a ha b hb hpair
    exact hpair.ne (hinj a ha b hb hpair.hyphenate_eq)
  · intro h a ha b hb e
    rcases (hyphenate_eq_iff (hd a ha) (hd b hb)).1 e with hab | hpair | hpair
    · exact hab
    · exact absurd hpair (h a ha b hb)
    · exact absurd hpair (h b hb a ha)

namespace Compiler

/-- Two names without dashes are hyphenated alike only if they are equal or differ in the capital of the
Microsoft prefix. So a block of such names, rendered by a compiler with any history, has pairwise distinct
property names exactly if it gives no value to both names of such a pair. Hyphenating is idempotent,
whatever the name. -/
theorem hyphenation_merges_vendor_pairs (h : ContentHash) (calls : List CompilerCall) :
    (∀ a b : String, '-' ∉ a.toList → '-' ∉ b.toList →
      (ScopedCss.hyphenate a = ScopedCss.hyphenate b ↔ a = b ∨ VendorPair a b ∨ VendorPair b a)) ∧
    (∀ d : Declarations, (∀ name ∈ d.withoutNulls.keys, '-' ∉ name.toList) →
      BodyOf d.withoutNulls.toList (((ofHash h).after calls).renderDeclarations d).1 ∧
      (d.renderedNames.Nodup ↔
        ∀ a ∈ d.withoutNulls.keys, ∀ b ∈ d.withoutNulls.keys, ¬ VendorPair a b)) ∧
    ∀ name, ScopedCss.hyphenate (ScopedCss.hyphenate name) = ScopedCss.hyphenate name := by
  refine ⟨fun _ _ => hyphenate_eq_iff, ?_, hyphenate_hyphenate⟩
  intro d hd
  obtain ⟨c, hrender, -⟩ := (faithful_after h calls).renderDeclarations d
  refine ⟨?_, Declarations.nodup_renderedNames_iff hd⟩
  rw [hrender, ← bodyText_filter]
  exact bodyOf_bodyText fun p hp => (StyleObject.mem_withoutNulls hp).2

/-- Both names of a pair in one block, where the second one is not set, among names that only look like
such a pair. -/
theorem hyphenation_merges_vendor_pairs_flex :
    let d : Declarations := ⟨[("msFlex", .text "1"), ("MsFlex", .null), ("msflex", .text "2"),
      ("MSFlex", .text "3"), ("ms", .text "4"), ("Ms", .text "5")], by decide⟩
    ('-' ∉ "msFlex".toList ∧ '-' ∉ "MsFlex".toList ∧ VendorPair "msFlex" "MsFlex" ∧
      ScopedCss.hyphenate "msFlex" = ScopedCss.hyphenate "MsFlex") ∧
    (∀ name ∈ d.withoutNulls.keys, '-' ∉ name.toList) ∧
      BodyOf d.withoutNulls.toList (new.renderDeclarations d).1 ∧ d.renderedNames.Nodup := by
  intro d
  obtain ⟨hnames, hblocks, -⟩ := hyphenation_merges_vendor_pairs .standard []
  have hsmall : '-' ∉ "msFlex".toList := by decide
  have hcapital : '-' ∉ "MsFlex".toList := by decide
  have hpair : VendorPair "msFlex" "MsFlex" := ⟨'F', ['l', 'e', 'x'], by decide, by decide, by decide⟩
  have hd : ∀ name ∈ d.withoutNulls.keys, '-' ∉ name.toList := by decide +kernel
  obtain ⟨hbody, hdistinct⟩ := hblocks d hd
  refine ⟨⟨hsmall, hcapital, hpair, (hnames _ _ hsmall hcapital).2 (.inr (.inl hpair))⟩, hd, hbody, ?_⟩
  rw [hdistinct]
  -- No name that has a value starts with `Ms` and goes on.
  have hshort : ∀ b ∈ d.withoutNulls.keys, b.toList.take 2 = ['M', 's'] → b.toList.length ≤ 2 := by
    decide +kernel
  rintro a - b hb ⟨c, rest, -, -, hchars⟩
  have hle := hshort b hb
  rw [hchars] at hle
  exact absurd (hle rfl) (by simp)

end Compiler

end ScopedCss
