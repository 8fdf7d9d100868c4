import ScopedCss.Proofs.Json.Strings
import ScopedCss.Proofs.Style.Decode
import ScopedCss.Rule

/-!
# Rules and class names as JSON

A rule and a class name are written as the JSON string of their text. Read back, a rule may be any
text, a class name only one or more letters. A text that is read may spell its characters in many
ways and have blanks around it; nothing of this is kept, so a name that was read and is written again
may look different, and is still the same name.
-/

namespace ScopedCss

open Json

/-! ## Rules -/

/-- A string is read behind the blanks and its opening quote. -/
theorem textReader_eq_ok {s r : List Char} {t : String} :
    textReader s = .ok (t, r) ↔ ∃ s', skipBlanks s = '"' :: s' ∧ readString s' = .ok (t, r) := by
  unfold textReader
  split
  · next s' hs =>
    constructor
    · intro h
      exact ⟨s', hs, h⟩
    · rintro ⟨s'', hs', h⟩
      rw [hs] at hs'
      cases hs'
      exact h
  · next hs =>
    refine iff_of_false (refuse_ne_ok _ _ _) ?_
    rintro ⟨s', hs', -⟩
    exact hs s' hs'

/-- A text is read as a rule exactly if it is a spelling of the text of the rule. -/
theorem StyleRule.parse_eq_ok {text : String} {r : StyleRule} :
    StyleRule.parse text = .ok r ↔ IsStringText text r.text := by
  have hread : ∀ t, readAll textReader text = .ok t ↔ IsStringText text t := by
    intro t
    rw [readAll_eq_ok, isStringText_iff]
    constructor
    · rintro ⟨r, h, hend⟩
      obtain ⟨s, hs, h⟩ := textReader_eq_ok.1 h
      exact ⟨s, r, hs, h, hend⟩
    · rintro ⟨s, r, hs, h, hend⟩
      exact ⟨r, textReader_eq_ok.2 ⟨s, hs, h⟩, hend⟩
  rw [← hread, StyleRule.parse]
  cases readAll textReader text with
  | error e => exact iff_of_false nofun nofun
  | ok t =>
    constructor
    · intro h
      cases h
      rfl
    · intro h
      cases h
      rfl

/-! ## Class names -/

/-- A text is taken as a class name exactly if it is the text of one. -/
theorem ClassName.ofText_eq_ok {t : String} {n : ClassName} :
    ClassName.ofText t = .ok n ↔ n.text = t := by
  constructor
  · intro h
    unfold ClassName.ofText at h
    split at h
    · cases h
      rfl
    · cases h
  · rintro rfl
    exact ofText_text n

/-- It makes no difference that a text is judged before it is looked at what follows. -/
theorem ClassName.parse_eq_ok {text : String} {n : ClassName} :
    ClassName.parse text = .ok n ↔ IsStringText text n.text := by
  rw [isStringText_iff]
  constructor
  · intro h
    unfold ClassName.parse at h
    simp only at h
    split at h
    · cases h
    · next t r hread =>
      split at h
      · cases h
      · next m hm =>
        split at h
        · cases h
        · next hend =>
          cases h
          obtain ⟨s, hs, hread⟩ := textReader_eq_ok.1 hread
          rw [ClassName.ofText_eq_ok.1 hm]
          exact ⟨s, r, hs, hread, hend⟩
  · rintro ⟨s, r, hs, hread, hend⟩
    have htext : textReader text.toList = .ok (n.text, r) := textReader_eq_ok.2 ⟨s, hs, hread⟩
    simp only [ClassName.parse, htext, ofText_text, hend]

/-- A document is decoded to a class name exactly if it is the string of its letters. -/
theorem ClassName.ofJson_eq_ok {d : Json} {n : ClassName} :
    ClassName.ofJson d = .ok n ↔ d = .string n.text := by
  constructor
  · intro h
    cases d with
    | string t =>
      have hn : (ClassName.ofText t).mapError ClassName.DecodeError.invalid = .ok n := h
      cases ht : ClassName.ofText t with
      | error e =>
        rw [ht] at hn
        cases hn
      | ok m =>
        rw [ht] at hn
        cases hn
        rw [ClassName.ofText_eq_ok.1 ht]
    | _ => cases h
  · rintro rfl
    show (ClassName.ofText n.text).mapError _ = _
    rw [ofText_text]
    rfl

/-- A class name that is read directly is the one decoded from the document that the text is. -/
theorem ClassName.parse_iff_read {text : String} {n : ClassName} :
    ClassName.parse text = .ok n ↔ ∃ d, Json.read text = .ok d ∧ ClassName.ofJson d = .ok n := by
  rw [ClassName.parse_eq_ok, ← read_eq_string]
  constructor
  · intro h
    exact ⟨_, h, ClassName.ofJson_eq_ok.2 rfl⟩
  · rintro ⟨d, hd, hn⟩
    rw [hd, ClassName.ofJson_eq_ok.1 hn]

/-! ## There and back -/

/-- Every rule and every class name is read back as it was written. A text or a document is read as a
class name exactly if it is a string of one or more letters, in whatever spelling; the name then has
these letters, and writing it and reading it again changes nothing. -/
theorem rules_and_classNames_survive_json :
    (∀ r : StyleRule, StyleRule.parse r.encode = .ok r) ∧
    (∀ n : ClassName, ClassName.parse n.encode = .ok n) ∧
    (∀ text, (∃ n, ClassName.parse text = .ok n) ↔ ∃ t, IsStringText text t ∧ IsClassText t) ∧
    (∀ text n, ClassName.parse text = .ok n ↔ IsStringText text n.text) ∧
    (∀ text, (ClassName.parse text >>= fun n => ClassName.parse n.encode) = ClassName.parse text) ∧
    (∀ d, (∃ n, ClassName.ofJson d = .ok n) ↔ ∃ t, d = .string t ∧ IsClassText t) ∧
    (∀ d n, ClassName.ofJson d = .ok n ↔ d = .string n.text) := by
  have hname : ∀ n : ClassName, ClassName.parse n.encode = .ok n := fun n =>
    ClassName.parse_eq_ok.2 (isStringText_write n.text)
  refine ⟨?_, hname, ?_, fun _ _ => ClassName.parse_eq_ok, ?_, ?_, fun _ _ => ClassName.ofJson_eq_ok⟩
  · intro r
    exact StyleRule.parse_eq_ok.2 (isStringText_write r.text)
  · intro text
    constructor
    · rintro ⟨n, hn⟩
      exact ⟨n.text, ClassName.parse_eq_ok.1 hn, n.isClassText⟩
    · rintro ⟨t, ht, hletters⟩
      exact ⟨⟨t, hletters⟩, ClassName.parse_eq_ok.2 ht⟩
  · intro text
    cases ClassName.parse text with
    | error e => rfl
    | ok n => exact bind_eq_ok.2 ⟨n, rfl, hname n⟩
  · intro d
    constructor
    · rintro ⟨n, hn⟩
      exact ⟨n.text, ClassName.ofJson_eq_ok.1 hn, n.isClassText⟩
    · rintro ⟨t, rfl, hletters⟩
      exact ⟨⟨t, hletters⟩, ClassName.ofJson_eq_ok.2 rfl⟩

/-- Letters may be spelled by their codes, in digits of either case. -/
example : (ClassName.parse " \"\\u006a\\u004Ak\" ").toOption.map ClassName.encode = some "\"jJk\"" := by
  decide +kernel

end ScopedCss
