import ScopedCss.Proofs.Compiler.History
import ScopedCss.Proofs.Sink.Sheet

/-!
# Texts without braces

Only the compiler itself writes braces: if no key, property name or text of a style object has one,
then the preludes and the bodies that the compiler makes of them have none either. Numbers and class
names never have braces. Objects of this kind (`StyleObject.IsPlain`) can be merged, and the result is
of the same kind.
-/

namespace ScopedCss

/-! ## Numbers -/

theorem braceFree_toDigits (n : Nat) : BraceFree (Nat.toDigits 10 n) :=
  braceFree_of_forall Char.isDigit rfl rfl fun _ hc =>
    Nat.isDigit_of_mem_toDigits (by decide) (by decide) hc

namespace Layout

theorem braceFree_zeros (n : Nat) : BraceFree (zeros n) := by
  intro c hc
  obtain rfl := List.eq_of_mem_replicate hc
  decide

/-- A number in positional notation has digits, a point and zeros, and no brace. -/
theorem braceFree_positional (L : Layout) {ds : List Char} (h : BraceFree ds) (point : Int) :
    BraceFree (L.positional ds point) := by
  have hmark : BraceFree (if L.wholeMark then ['.', '0'] else []) := by
    split <;> decide
  unfold positional
  split
  · have hplaces : BraceFree (zeros (-point).toNat ++ ds) :=
      braceFree_append.2 ⟨braceFree_zeros _, h⟩
    exact braceFree_cons.2 ⟨by decide, braceFree_cons.2 ⟨by decide, hplaces⟩⟩
  · simp only
    split
    · exact braceFree_append.2 ⟨braceFree_append.2 ⟨h, braceFree_zeros _⟩, hmark⟩
    · rw [← List.take_append_drop point.toNat ds] at h
      obtain ⟨hwhole, hplaces⟩ := braceFree_append.1 h
      exact braceFree_append.2 ⟨hwhole, braceFree_cons.2 ⟨by decide, hplaces⟩⟩

/-- A number in exponential notation has digits, a point, the letter and a sign, and no brace. -/
theorem braceFree_exponential {ds : List Char} (h : BraceFree ds) (e : Int) :
    BraceFree (exponential ds e) := by
  have hsign : BraceFree ((if e < 0 then '-' else '+') :: Nat.toDigits 10 e.natAbs) := by
    refine braceFree_cons.2 ⟨?_, braceFree_toDigits _⟩
    split <;> decide
  have hexponent := braceFree_cons.2 ⟨(by decide : 'e' ≠ '{' ∧ 'e' ≠ '}'), hsign⟩
  unfold exponential
  refine braceFree_append.2 ⟨?_, hexponent⟩
  split
  · exact braceFree_nil
  · exact h
  · obtain ⟨hd, hrest⟩ := braceFree_cons.1 h
    exact braceFree_cons.2 ⟨hd, braceFree_cons.2 ⟨by decide, hrest⟩⟩

theorem braceFree_write (L : Layout) (x : Decimal) : BraceFree (L.write x) := by
  have hdigits : BraceFree (Nat.toDigits 10 x.digits) := braceFree_toDigits _
  unfold write
  simp only
  split
  · exact L.braceFree_positional hdigits _
  · exact braceFree_exponential hdigits _

theorem braceFree_writeBinary64 (L : Layout) (x : Binary64) :
    BraceFree (L.writeBinary64 x).toList := by
  rw [writeBinary64, String.toList_ofList]
  refine braceFree_append.2 ⟨?_, L.braceFree_write _⟩
  split <;> decide

end Layout

/-- A rendered number has no braces, whether it is finite or not. -/
theorem braceFree_renderNumber (x : Binary64) : BraceFree (renderNumber x).toList := by
  unfold renderNumber
  split
  · decide
  · split
    · split <;> decide
    · split
      · decide
      · exact Layout.css.braceFree_writeBinary64 x

/-! ## Names -/

/-- What is to hold of all capitals can be decided, since they are the 26 characters from `A` on. -/
theorem forall_isUpper {P : Char → Prop} (h : ∀ n < 26, P (Char.ofNat (65 + n))) {c : Char}
    (hc : c.isUpper = true) : P c := by
  have hbounds : 65 ≤ c.toNat ∧ c.toNat ≤ 90 := of_decide_eq_true hc
  have hp := h (c.toNat - 65) (by omega)
  rwa [Nat.add_sub_cancel' hbounds.1, Char.ofNat_toNat] at hp

/-- No brace comes in by hyphenating a character. -/
theorem braceFree_hyphenateChar {c : Char} (h : c ≠ '{' ∧ c ≠ '}') :
    BraceFree (hyphenateChar c) := by
  unfold hyphenateChar
  split
  · next hupper =>
    have hlower : c.toLower ≠ '{' ∧ c.toLower ≠ '}' := by
      refine forall_isUpper (P := fun c => c.toLower ≠ '{' ∧ c.toLower ≠ '}') ?_ hupper
      decide
    exact braceFree_cons.2 ⟨by decide, braceFree_cons.2 ⟨hlower, braceFree_nil⟩⟩
  · exact braceFree_cons.2 ⟨h, braceFree_nil⟩

theorem braceFree_hyphenate {name : String} (h : BraceFree name.toList) :
    BraceFree (hyphenate name).toList := by
  have hspelled : BraceFree (name.toList.flatMap hyphenateChar) :=
    .flatMap fun c hc => braceFree_hyphenateChar (h c hc)
  rw [hyphenate, String.toList_ofList, hyphenateChars]
  split
  · exact braceFree_cons.2 ⟨by decide, hspelled⟩
  · exact hspelled

/-! ## Bodies -/

/-- A text without braces, or a value of another kind. -/
def StyleValue.IsPlain : StyleValue → Prop
  | .text s => BraceFree s.toList
  | _ => True

instance : DecidablePred StyleValue.IsPlain
  | .text s => inferInstanceAs (Decidable (BraceFree s.toList))
  | .number _ => isTrue trivial
  | .null => isTrue trivial

/-- Neither the names nor the texts of the declarations have braces. -/
def Declarations.IsPlain (d : Declarations) : Prop :=
  ∀ p ∈ d.toList, BraceFree p.1.toList ∧ p.2.IsPlain

instance : DecidablePred Declarations.IsPlain := fun _ => List.decidableBAll _ _

/-- The text of a declaration has a brace only if the name or the value has one. -/
theorem braceFree_declarationText {spelled : String} {v : StyleValue}
    (hspelled : BraceFree spelled.toList) (hv : v.IsPlain) :
    BraceFree (declarationText spelled v).toList := by
  have hpair : ∀ t : String, BraceFree t.toList →
      BraceFree (spelled ++ ":" ++ t ++ ";").toList := by
    intro t ht
    simp only [String.toList_append, braceFree_append]
    exact ⟨⟨⟨hspelled, by decide⟩, ht⟩, by decide⟩
  cases v with
  | null => exact braceFree_nil
  | text s => exact hpair s hv
  | number x =>
    have hx : BraceFree (renderNumber x).toList := braceFree_renderNumber x
    rw [declarationText, StyleValue.render]
    by_cases hbare : isUnitless spelled = true
    · rw [if_pos hbare]
      exact hpair _ hx
    · rw [if_neg hbare]
      refine hpair _ ?_
      rw [String.toList_append, braceFree_append]
      exact ⟨hx, by decide⟩

/-- The body of a block has no braces if no name and no value in it has one. -/
theorem braceFree_bodyText {ps : List (String × StyleValue)}
    (h : ∀ p ∈ ps, BraceFree p.1.toList ∧ p.2.IsPlain) : BraceFree (bodyText ps).toList := by
  induction ps with
  | nil => exact braceFree_nil
  | cons p ps ih =>
    obtain ⟨hname, hv⟩ := h p List.mem_cons_self
    have hrest : BraceFree (bodyText ps).toList := ih fun p hp => h p (List.mem_cons_of_mem _ hp)
    rw [bodyText, String.toList_append, braceFree_append]
    exact ⟨braceFree_declarationText (braceFree_hyphenate hname) hv, hrest⟩

/-! ## Selectors -/

theorem toList_selector (n : ClassName) : n.selector.toList = '.' :: n.text.toList := by
  rw [ClassName.selector, String.toList_append]
  rfl

theorem braceFree_selector (n : ClassName) : BraceFree n.selector.toList := by
  rw [toList_selector]
  have hletters : BraceFree n.text.toList :=
    braceFree_of_forall Char.isAlpha rfl rfl n.isClassText.2
  exact braceFree_cons.2 ⟨by decide, hletters⟩

theorem visible_selector (n : ClassName) : Visible n.selector.toList := by
  rw [toList_selector]
  exact ⟨'.', List.mem_cons_self, by decide⟩

theorem toList_fillSelector (key : String) (n : ClassName) :
    (fillSelector key n).toList =
      key.toList.flatMap fun c => if c = '&' then n.selector.toList else [c] :=
  String.toList_ofList

theorem braceFree_fillSelector {key : String} (h : BraceFree key.toList) (n : ClassName) :
    BraceFree (fillSelector key n).toList := by
  rw [toList_fillSelector]
  refine .flatMap fun c hc => ?_
  split
  · exact braceFree_selector n
  · exact braceFree_cons.2 ⟨h c hc, braceFree_nil⟩

/-- Putting the class selector into a visible key leaves it visible. -/
theorem visible_fillSelector {key : String} (h : Visible key.toList) (n : ClassName) :
    Visible (fillSelector key n).toList := by
  obtain ⟨c, hc, hblank⟩ := h
  have hpiece : Visible (if c = '&' then n.selector.toList else [c]) := by
    split
    · exact visible_selector n
    · exact ⟨c, List.mem_singleton_self c, hblank⟩
  obtain ⟨c', hc', hblank'⟩ := hpiece
  rw [toList_fillSelector]
  exact ⟨c', List.mem_flatMap.2 ⟨c, hc, hc'⟩, hblank'⟩

/-- No at-sign comes to the front of a selector. -/
theorem head?_fillSelector_ne {key : String} (h : key.toList.head? ≠ some '@') (n : ClassName) :
    (fillSelector key n).toList.head? ≠ some '@' := by
  rw [toList_fillSelector]
  cases hkey : key.toList with
  | nil => simp
  | cons c cs =>
    rw [hkey] at h
    rw [List.flatMap_cons]
    by_cases hc : c = '&'
    · rw [if_pos hc, toList_selector]
      simp
    · rw [if_neg hc]
      exact h

/-! ## Style objects -/

/-- What stands under `key` has no braces. If it is a block in which something is declared, the key is
empty or not blank. -/
def StyleEntry.IsPlain (key : String) : StyleEntry → Prop
  | .value v => v.IsPlain
  | .nested d => d.IsPlain ∧ ((∃ p ∈ d.toList, p.2 ≠ .null) → key = "" ∨ Visible key.toList)

instance (key : String) : DecidablePred (StyleEntry.IsPlain key)
  | .value v => inferInstanceAs (Decidable v.IsPlain)
  | .nested d =>
    haveI : Decidable (∃ p ∈ d.toList, p.2 ≠ .null) := List.decidableBEx _ _
    inferInstanceAs (Decidable (d.IsPlain ∧
      ((∃ p ∈ d.toList, p.2 ≠ .null) → key = "" ∨ Visible key.toList)))

namespace StyleObject

/-- No key, property name or text of the object has a brace, and no block in which something is
declared stands under a blank key, unless the key is empty. -/
def IsPlain (o : StyleObject) : Prop := ∀ e ∈ o.toList, BraceFree e.1.toList ∧ e.2.IsPlain e.1

instance : DecidablePred IsPlain := fun _ => List.decidableBAll _ _

/-- A plain entry over a plain one is plain: values replace each other, and blocks are merged. -/
theorem isPlain_over {key : String} {e : StyleEntry} {old : Option StyleEntry}
    (he : e.IsPlain key) (hold : ∀ e', old = some e' → e'.IsPlain key) :
    (e.over old).IsPlain key := by
  match e, old with
  | .value v, _ => exact he
  | .nested d, none => exact he
  | .nested d, some (.value v) => exact he
  | .nested d, some (.nested existing) =>
    obtain ⟨hd, hkey⟩ := he
    obtain ⟨hexisting, hkey'⟩ := hold _ rfl
    constructor
    · intro p hp
      rcases OrderedMap.mem_setAll hp with hp | hp
      · exact hexisting p hp
      · exact hd p hp
    · rintro ⟨p, hp, hnull⟩
      rcases OrderedMap.mem_setAll hp with hp | hp
      · exact hkey' ⟨p, hp, hnull⟩
      · exact hkey ⟨p, hp, hnull⟩

/-- Overlaying one plain entry keeps an object plain. -/
theorem IsPlain.overlay {o : StyleObject} (ho : o.IsPlain) {key : String} {e : StyleEntry}
    (hkey : BraceFree key.toList) (he : e.IsPlain key) : (o.overlay key e).IsPlain := by
  intro p hp
  rcases Pairs.mem_set hp with rfl | hp
  · refine ⟨hkey, isPlain_over he ?_⟩
    intro e' hget
    exact (ho (key, e') (OrderedMap.get?_eq_some_iff.1 hget)).2
  · exact ho p hp

/-- Overlaying plain entries one after the other keeps it plain. -/
theorem IsPlain.overlayAll {o : StyleObject} (ho : o.IsPlain) {es : List (String × StyleEntry)}
    (hes : ∀ e ∈ es, BraceFree e.1.toList ∧ e.2.IsPlain e.1) :
    IsPlain (es.foldl (fun o e => StyleObject.overlay o e.1 e.2) o) := by
  induction es generalizing o with
  | nil => exact ho
  | cons e es ih =>
    obtain ⟨hkey, he⟩ := hes e List.mem_cons_self
    have hstep : (StyleObject.overlay o e.1 e.2).IsPlain := ho.overlay hkey he
    exact ih hstep fun e' he' => hes e' (List.mem_cons_of_mem _ he')

/-- Merging plain objects gives a plain object. -/
theorem isPlain_mergeAll {objects : List StyleObject} (h : ∀ o ∈ objects, o.IsPlain) :
    (mergeAll objects).IsPlain := by
  suffices hfrom : ∀ o : StyleObject, o.IsPlain → (objects.foldl StyleObject.mergeWith o).IsPlain by
    refine hfrom OrderedMap.empty ?_
    intro e he
    cases he
  induction objects with
  | nil => intro o ho; exact ho
  | cons p objects ih =>
    intro o ho
    have hrest : ∀ o ∈ objects, IsPlain o := fun o ho => h o (List.mem_cons_of_mem _ ho)
    exact ih hrest _ (ho.overlayAll (h p List.mem_cons_self))

end StyleObject

end ScopedCss
