import ScopedCss.Proofs.Client.Styling
import ScopedCss.Proofs.Compiler.Meaning
import ScopedCss.Proofs.Compiler.Plain

/-!
# What is compiled is taken

The compiler makes rules of three shapes, and a sheet knows nothing of them: it looks for a prelude
that is not blank and for a block that closes at the very end. For plain objects the two agree. Every
rule passes the check of the sheet, and it begins with an at-sign exactly if the key of its group does,
so it is held in the region that the key asks for. Whole trees of elements that are built from such
objects can therefore always be inserted.
-/

namespace ScopedCss

/-! ## Rules -/

theorem toList_blockText (head body : String) :
    (blockText head body).toList = head.toList ++ '{' :: (body.toList ++ ['}']) := by
  simp [blockText]

theorem head?_blockText (head body : String) :
    (blockText head body).toList.head? = some '@' ↔ head.toList.head? = some '@' := by
  rw [toList_blockText]
  cases head.toList with
  | nil => simp
  | cons c cs => exact Iff.rfl

/-- The rule of a class begins with an at-sign if the key of the group does, and only then. -/
theorem head?_groupRule (n : ClassName) (key body : String) :
    (groupRule n key body).text.toList.head? = some '@' ↔ key.toList.head? = some '@' := by
  rw [groupRule, groupKind_of_eq]
  by_cases hempty : key = ""
  · rw [if_pos hempty, hempty]
    refine (head?_blockText _ _).trans ?_
    rw [toList_selector, List.head?_cons]
    decide
  · rw [if_neg hempty]
    by_cases hat : key.toList.head? = some '@'
    · rw [if_pos hat]
      exact head?_blockText _ _
    · rw [if_neg hat]
      have hfilled := head?_fillSelector_ne hat n
      exact (head?_blockText _ _).trans (iff_of_false hfilled hat)

/-- A rule that the compiler makes of a visible key and a body without braces has no fault,
whichever of the three shapes it has. -/
theorem ruleFault_groupRule (n : ClassName) {key body : String} (hkey : BraceFree key.toList)
    (hvisible : key = "" ∨ Visible key.toList) (hbody : BraceFree body.toList) :
    ruleFault (groupRule n key body) = none := by
  have hselector := braceFree_selector n
  rw [groupRule, groupKind_of_eq]
  by_cases hempty : key = ""
  · rw [if_pos hempty]
    exact ruleFault_block (toList_blockText _ _) hselector (visible_selector n) hbody.balanced
  · have hvisible : Visible key.toList := hvisible.resolve_left hempty
    rw [if_neg hempty]
    by_cases hat : key.toList.head? = some '@'
    · rw [if_pos hat]
      have hinner : Balanced (blockText n.selector body).toList := by
        rw [toList_blockText]
        exact .block hselector hbody.balanced
      exact ruleFault_block (toList_blockText _ _) hkey hvisible hinner
    · rw [if_neg hat]
      exact ruleFault_block (toList_blockText _ _) (braceFree_fillSelector hkey n)
        (visible_fillSelector hvisible n) hbody.balanced

/-! ## Groups -/

namespace StyleObject

/-- The key and the body of a group of a plain object. -/
theorem IsPlain.group {o : StyleObject} (ho : o.IsPlain) {g : String × Declarations}
    (hg : g ∈ o.groups.toList) : BraceFree g.1.toList ∧ (g.1 = "" ∨ Visible g.1.toList) ∧
      BraceFree (bodyText g.2.toList).toList := by
  obtain ⟨hne, hdeclares⟩ := mem_groups hg
  have hbody : ∀ p ∈ g.2.toList, BraceFree p.1.toList ∧ p.2.IsPlain := by
    intro p hp
    obtain ⟨-, ⟨-, he⟩ | ⟨d, he, hp⟩⟩ := hdeclares p hp
    · exact ho _ he
    · exact (ho _ he).2.1 p hp
  -- The group has a declaration, so its key is that of a block in which something is declared.
  obtain ⟨p, hp⟩ := List.exists_mem_of_ne_nil _ hne
  obtain ⟨hnull, ⟨hkey, -⟩ | ⟨d, he, hp⟩⟩ := hdeclares p hp
  · rw [hkey]
    exact ⟨braceFree_nil, .inl rfl, braceFree_bodyText hbody⟩
  · obtain ⟨hkey, -, hvisible⟩ := ho _ he
    exact ⟨hkey, hvisible ⟨p, hp, hnull⟩, braceFree_bodyText hbody⟩

theorem IsPlain.ruleFault_group {o : StyleObject} (ho : o.IsPlain) {g : String × Declarations}
    (hg : g ∈ o.groups.toList) (n : ClassName) :
    ruleFault (groupRule n g.1 (bodyText g.2.toList)) = none := by
  obtain ⟨hkey, hvisible, hbody⟩ := ho.group hg
  exact ruleFault_groupRule n hkey hvisible hbody

end StyleObject

/-! ## Registries over a sheet -/

/-- A sheet finds no fault in the rules of the fragment. -/
def Fragment.Faultless (f : Fragment) : Prop := ∀ rule ∈ f.rules, ruleFault rule = none

namespace Registry

variable {r : Registry SheetSink}

/-- An attached sheet takes rules without fault, all of them and in either mode, and stays attached.
-/
theorem addRules_ok (hr : r.sink.attached = true) (taken : List Handle) {rules : List StyleRule}
    (hrules : ∀ rule ∈ rules, ruleFault rule = none) :
    ∃ handles t, r.addRules taken rules = (.ok handles, t) ∧ t.sink.attached = true := by
  induction rules generalizing r taken with
  | nil => exact ⟨taken, r, rfl, hr⟩
  | cons rule rules ih =>
    have hadd : Sink.add r.sink rule = (.ok ⟨r.sink.next⟩, r.sink.placed rule.text rule) :=
      SheetSink.add_eq_placed hr (hrules rule List.mem_cons_self) Iff.rfl
    have hattached : (r.sink.placed rule.text rule).attached = true := by
      rw [SheetSink.attached_placed, hr]
    obtain ⟨handles, t, heq, ht⟩ := ih (r := { r with sink := r.sink.placed rule.text rule })
      hattached (taken ++ [⟨r.sink.next⟩]) fun rule' h => hrules rule' (List.mem_cons_of_mem _ h)
    refine ⟨handles, t, ?_, ht⟩
    rw [addRules, hadd]
    exact heq

/-- A registry over an attached sheet acquires every faultless fragment. -/
theorem acquire_ok (hr : r.sink.attached = true) {f : Fragment} (hf : f.Faultless) :
    ∃ t, r.acquire f = (.ok (), t) ∧ t.sink.attached = true := by
  unfold acquire
  cases hget : r.entries.get? f.className with
  | some e => exact ⟨_, rfl, hr⟩
  | none =>
    obtain ⟨handles, t, heq, ht⟩ := addRules_ok hr [] hf
    simp only [heq]
    exact ⟨_, rfl, ht⟩

theorem acquireAll_ok (hr : r.sink.attached = true) {fs : List Fragment}
    (hfs : ∀ f ∈ fs, f.Faultless) : ∃ t, r.acquireAll fs = (.ok (), t) := by
  induction fs generalizing r with
  | nil => exact ⟨r, rfl⟩
  | cons f fs ih =>
    obtain ⟨s, hs, hattached⟩ := acquire_ok hr (hfs f List.mem_cons_self)
    obtain ⟨t, ht⟩ := ih hattached fun f' hf' => hfs f' (List.mem_cons_of_mem _ hf')
    exact ⟨t, acquireAll_cons_ok.2 ⟨s, hs, ht⟩⟩

/-- An element without faulty rules can be inserted whenever the sheet is attached. -/
theorem insert_ok_of_faultless (hr : r.sink.attached = true) {e : StyleElement}
    (he : ∀ f ∈ e.fragments, f.Faultless) : ∃ t, r.insert e = (.ok ⟨r.id, e⟩, t) := by
  obtain ⟨t, ht⟩ := acquireAll_ok hr he
  cases hinsert : r.insert e with
  | mk result u =>
    cases result with
    | error err =>
      obtain ⟨s, hs⟩ := (abandons_of_insertElement (insert_error hinsert)).acquireAll
      rw [ht] at hs
      cases hs
    | ok reg =>
      obtain ⟨hreg, -⟩ := insert_ok hinsert
      exact ⟨u, by rw [hreg]⟩

end Registry

/-! ## Elements -/

/-- The elements that can be built from style objects with the property `P`, by compilers that may
have been used for anything before, and from elements of this kind. -/
inductive StyleElement.Built (P : StyleObject → Prop) : StyleElement → Prop where
  | build (h : ContentHash) (calls : List CompilerCall) (inputs : List StyleInput)
      (objects : ∀ o ∈ StyleInput.objects inputs, P o)
      (elements : ∀ e ∈ StyleInput.elements inputs, Built P e) :
      Built P (((Compiler.ofHash h).after calls).build inputs).1

/-- An element that is built from plain objects is faultless all the way down. The induction is on
how it was built. -/
theorem StyleElement.Built.faultless {e : StyleElement} (he : Built StyleObject.IsPlain e) :
    ∀ f ∈ e.fragments, f.Faultless := by
  induction he with
  | build h calls inputs objects _ ih =>
    obtain ⟨c, hbuild, -⟩ := (Compiler.faithful_after h calls).build inputs
    intro f hf
    rw [hbuild, fragments] at hf
    rcases List.mem_append.1 hf with hf | hf
    · obtain ⟨e, he, hf⟩ := mem_fragmentsOfAll.1 hf
      exact ih e he f hf
    · intro rule hrule
      rw [rules_fragmentOf (Option.mem_toList.1 hf)] at hrule
      obtain ⟨g, hg, rfl⟩ := List.mem_map.1 hrule
      exact (StyleObject.isPlain_mergeAll objects).ruleFault_group hg f.className

namespace Compiler

/-- The rules of a compiled plain object go to the sheet one for each group, in the region that the
key of the group asks for. -/
theorem add_rules_compile (h : ContentHash) (calls : List CompilerCall) {o : StyleObject}
    {f : Fragment} {s : SheetSink} (ho : o.IsPlain) (hs : s.attached = true)
    (hf : (((ofHash h).after calls).compile o).1 = some f) :
    List.Forall₂ (fun g rule => Sink.add s rule = (.ok ⟨s.next⟩, s.placed g.1 rule))
      o.groups.toList f.rules := by
  obtain ⟨c, hcompile, -⟩ := (faithful_after h calls).compile o
  rw [hcompile] at hf
  rw [rules_fragmentOf hf]
  refine List.forall₂_map_right_iff.2 (List.forall₂_same.2 fun g hg => ?_)
  exact SheetSink.add_eq_placed hs (ho.ruleFault_group hg _) (head?_groupRule _ _ _)

/-- A global rule of a plain block goes to the region that its selector asks for. -/
theorem addGlobal_renderGlobal (h : ContentHash) (calls : List CompilerCall) {selector : String}
    {d : Declarations} {s : SheetSink} (hselector : BraceFree selector.toList)
    (hvisible : Visible selector.toList) (hd : d.IsPlain) (hs : s.attached = true) :
    let rule := (((ofHash h).after calls).renderGlobal selector d).1
    Sink.addGlobal s rule = (.ok ⟨s.next⟩, s.placed selector rule) := by
  obtain ⟨c, hrender, -⟩ := (faithful_after h calls).renderGlobal selector d
  rw [hrender]
  have hfault : ruleFault ⟨blockText selector (bodyText d.toList)⟩ = none :=
    ruleFault_block (toList_blockText _ _) hselector hvisible (braceFree_bodyText hd).balanced
  exact SheetSink.add_eq_placed hs hfault (head?_blockText _ _)

/-- An attached sheet takes all that comes of plain input, and puts it where it belongs: each rule of a
compiled object, according to the key of its group, and each global rule with a selector that is not
blank, according to the selector. So an element that is built from plain objects, however often
elements are nested into it, can be inserted into every registry over an attached sheet. -/
theorem plain_input_taken (h : ContentHash) (calls : List CompilerCall) :
    (∀ (o : StyleObject) (f : Fragment) (s : SheetSink), o.IsPlain → s.attached = true →
      (((ofHash h).after calls).compile o).1 = some f →
      List.Forall₂ (fun g rule => Sink.add s rule = (.ok ⟨s.next⟩, s.placed g.1 rule))
        o.groups.toList f.rules) ∧
    (∀ (selector : String) (d : Declarations) (s : SheetSink), BraceFree selector.toList →
      Visible selector.toList → d.IsPlain → s.attached = true →
      let rule := (((ofHash h).after calls).renderGlobal selector d).1
      Sink.addGlobal s rule = (.ok ⟨s.next⟩, s.placed selector rule)) ∧
    ∀ (e : StyleElement) (r : Registry SheetSink), e.Built StyleObject.IsPlain →
      r.sink.attached = true → ∃ t, r.insert e = (.ok ⟨r.id, e⟩, t) := by
  refine ⟨?_, ?_, ?_⟩
  · intro o f s ho hs hf
    exact add_rules_compile h calls ho hs hf
  · intro selector d s hselector hvisible hd hs
    exact addGlobal_renderGlobal h calls hselector hvisible hd hs
  · intro e r he hr
    exact Registry.insert_ok_of_faultless hr he.faultless

/-- A number, a selector in which the class occurs twice, an at-rule with a null value, and a blank key
with nothing to declare; a global rule without declarations; and an element that is composed of the
same element twice. -/
theorem plain_input_taken_mixed :
    let o : StyleObject := .ofList [("width", .value (.number (.ofInt 3))),
      ("&:hover, & > p", .nested (.ofList [("color", .text "red")])),
      ("@media print", .nested (.ofList [("left", .null), ("msTransform", .text "none")])),
      (" ", .nested (.ofList [("top", .null)]))]
    let d : Declarations := .ofList [("color", .null)]
    let e := (new.build [.raw o]).1
    let page := (new.build [.element e, .raw o, .element e]).1
    let r := Registry.new 0 ⟨.strict⟩ SheetSink.empty
    (∃ f, o.IsPlain ∧ (new.compile o).1 = some f ∧
      List.Forall₂ (fun g rule => Sink.add SheetSink.empty rule =
        (.ok ⟨0⟩, SheetSink.empty.placed g.1 rule)) o.groups.toList f.rules) ∧
    (d.IsPlain ∧ let rule := (new.renderGlobal "@font-face" d).1
      Sink.addGlobal SheetSink.empty rule =
        (.ok ⟨0⟩, SheetSink.empty.placed "@font-face" rule)) ∧
    page.Built StyleObject.IsPlain ∧ ∃ t, r.insert page = (.ok ⟨0, page⟩, t) := by
  intro o d e page r
  obtain ⟨hcompile, hglobal, hinsert⟩ := plain_input_taken .standard []
  have ho : o.IsPlain := by decide +kernel
  have hd : d.IsPlain := by decide
  obtain ⟨f, hf⟩ : ∃ f, (new.compile o).1 = some f := by
    refine Option.isSome_iff_exists.1 ?_
    decide +kernel
  have he : e.Built StyleObject.IsPlain := by
    refine .build .standard [] [.raw o] ?_ ?_
    · intro o' ho'
      rw [List.mem_singleton.1 ho']
      exact ho
    · intro e' he'
      cases he'
  have hpage : page.Built StyleObject.IsPlain := by
    refine .build .standard [] [.element e, .raw o, .element e] ?_ ?_
    · intro o' ho'
      rw [List.mem_singleton.1 ho']
      exact ho
    · intro e' he'
      have hsame : e' = e := by
        rcases List.mem_cons.1 he' with h | h
        · exact h
        · exact List.mem_singleton.1 h
      rw [hsame]
      exact he
  refine ⟨⟨f, ho, hf, hcompile o f SheetSink.empty ho rfl hf⟩,
    ⟨hd, hglobal "@font-face" d SheetSink.empty (by decide) (by decide) hd rfl⟩, hpage, ?_⟩
  exact hinsert page r hpage rfl

end Compiler

end ScopedCss
