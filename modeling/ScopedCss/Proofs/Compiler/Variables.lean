import ScopedCss.Proofs.Compiler.History

/-!
# Custom properties

A custom property is declared under a key and referred to in a value. The key is hyphenated like any
other property name, the value is written as it is. So the two agree on the name exactly if hyphenating
does nothing to it, that is if it has no capitals: `--accentColor` is declared as `--accent-color`, which
`var(--accentColor)` does not refer to.
-/

namespace ScopedCss

/-! ## Names -/

/-- Hyphenating leaves characters alone exactly if there is no capital among them. -/
theorem flatMap_hyphenateChar_eq_self_iff (cs : List Char) :
    cs.flatMap hyphenateChar = cs ↔ ∀ c ∈ cs, c.isUpper = false := by
  induction cs with
  | nil => simp
  | cons c cs ih =>
    rw [List.flatMap_cons, List.forall_mem_cons, ← ih, hyphenateChar]
    by_cases hc : c.isUpper = true
    · -- A dash stands where the capital was.
      rw [if_pos hc]
      refine iff_of_false ?_ fun h => absurd hc (Bool.eq_false_iff.1 h.1)
      intro e
      have hdash : '-' = c := (List.cons.inj e).1
      rw [← hdash] at hc
      cases hc
    · rw [if_neg hc, and_iff_right (Bool.eq_false_iff.2 hc)]
      exact List.cons_inj_right c

namespace CssVariable

/-- The name under which a block declares the variable, dashes included. -/
def declaredName (v : CssVariable) : String :=
  "--" ++ String.ofList (v.name.toList.flatMap hyphenateChar)

/-- The key of a custom property is declared with each capital replaced by a dash and its small
letter. -/
theorem hyphenate_property (v : CssVariable) : hyphenate v.property = v.declaredName := by
  have hdashes : v.property.toList = '-' :: '-' :: v.name.toList := String.toList_append
  have hspelled : v.property.toList.flatMap hyphenateChar =
      '-' :: '-' :: v.name.toList.flatMap hyphenateChar := by
    rw [hdashes]
    rfl
  rw [hyphenate, hyphenateChars, hspelled]
  apply String.ext
  simp [declaredName]

theorem declaredName_eq_iff (v : CssVariable) :
    v.declaredName = "--" ++ v.name ↔ ∀ c ∈ v.name.toList, c.isUpper = false := by
  rw [declaredName, String.append_right_inj, ← flatMap_hyphenateChar_eq_self_iff,
    ← String.toList_inj, String.toList_ofList]

end CssVariable

/-! ## Blocks -/

/-- The body of a block can be taken apart at any declaration. -/
theorem bodyText_append_cons (ps : List (String × StyleValue)) (name : String) (v : StyleValue)
    (qs : List (String × StyleValue)) : bodyText (ps ++ (name, v) :: qs) =
      bodyText ps ++ declarationText (hyphenate name) v ++ bodyText qs := by
  induction ps with
  | nil => rw [List.nil_append, bodyText, bodyText, String.empty_append]
  | cons p ps ih =>
    rw [List.cons_append, bodyText, bodyText, ih, String.append_assoc, String.append_assoc,
      String.append_assoc]

namespace Compiler

/-- In a block in which a text is declared for a variable, the declaration stands under the declared name
of the variable, wherever the block is rendered: as it is, in a global rule, or as a group of a compiled
object. The value made from the variable refers to the name as it was given. So the declaration is that
of the name referred to exactly if the name has no capitals. -/
theorem variable_declared_as_referenced_iff (h : ContentHash) (calls : List CompilerCall)
    (v : CssVariable) (s : String) (d : Declarations) (hd : d.get? v.property = some (.text s)) :
    let c := (ofHash h).after calls
    let declaration := v.declaredName ++ ":" ++ s ++ ";"
    ∃ before later : List (String × StyleValue),
      d.toList = before ++ (v.property, .text s) :: later ∧
      let body := bodyText before ++ declaration ++ bodyText later
      (c.renderDeclarations d).1 = body ∧
      (∀ selector, (c.renderGlobal selector d).1 = ⟨blockText selector body⟩) ∧
      (∀ (o : StyleObject) (key : String), (key, d) ∈ o.groups.toList →
        ∃ f, (c.compile o).1 = some f ∧ groupRule f.className key body ∈ f.rules) ∧
      (∀ property, v.toValue.render property = some ("var(--" ++ v.name ++ ")")) ∧
      (declaration = "--" ++ v.name ++ ":" ++ s ++ ";" ↔ ∀ ch ∈ v.name.toList, ch.isUpper = false) := by
  intro c declaration
  have hc : Faithful h c := faithful_after h calls
  obtain ⟨before, later, hsplit⟩ := List.append_of_mem (OrderedMap.get?_eq_some_iff.1 hd)
  have hbody : bodyText d.toList = bodyText before ++ declaration ++ bodyText later := by
    rw [hsplit, bodyText_append_cons, v.hyphenate_property]
    rfl
  refine ⟨before, later, hsplit, ?_⟩
  rw [← hbody]
  refine ⟨?_, ?_, ?_, fun _ => rfl, ?_⟩
  · obtain ⟨_, hrender, -⟩ := hc.renderDeclarations d
    rw [hrender]
  · intro selector
    obtain ⟨_, hrender, -⟩ := hc.renderGlobal selector d
    rw [hrender]
  · intro o key hgroup
    obtain ⟨_, hcompile, -⟩ := hc.compile o
    obtain ⟨f, hf⟩ := exists_fragmentOf h (List.ne_nil_of_mem hgroup)
    refine ⟨f, by rw [hcompile, hf], ?_⟩
    rw [rules_fragmentOf hf]
    exact List.mem_map_of_mem hgroup
  · rw [String.append_left_inj, String.append_left_inj, String.append_left_inj]
    exact v.declaredName_eq_iff

/-- A variable without capitals, between a null value and another declaration. -/
theorem variable_declared_as_referenced_iff_lower :
    let v : CssVariable := ⟨"gap-x"⟩
    let d : Declarations := ⟨[("color", .null), ("--gap-x", .text "4px"), ("top", .text "0")], by decide⟩
    d.get? v.property = some (.text "4px") ∧ ∃ before later,
      d.toList = before ++ (v.property, .text "4px") :: later ∧
      (new.renderDeclarations d).1 = bodyText before ++ "--gap-x:4px;" ++ bodyText later := by
  intro v d
  have hd : d.get? v.property = some (.text "4px") := by decide +kernel
  obtain ⟨before, later, hsplit, hrender, -, -, -, hiff⟩ :=
    variable_declared_as_referenced_iff .standard [] v "4px" d hd
  have hname : "--" ++ v.name ++ ":" ++ "4px" ++ ";" = "--gap-x:4px;" := by decide +kernel
  refine ⟨hd, before, later, hsplit, ?_⟩
  rw [← hname, ← hiff.2 (v.declaredName_eq_iff.1 (by decide +kernel))]
  exact hrender

/-- A variable with a capital is declared under a name that its value does not refer to. -/
theorem variable_with_capital_declared_elsewhere :
    let v : CssVariable := ⟨"accentColor"⟩
    let d : Declarations := ⟨[("--accentColor", .text "red"), ("color", v.toValue)], by decide⟩
    d.get? v.property = some (.text "red") ∧
      (new.renderDeclarations d).1 = "--accent-color:red;color:var(--accentColor);" ∧
      (new.renderDeclarations d).1 ≠ "--accentColor:red;color:var(--accentColor);" := by
  decide +kernel

end Compiler

end ScopedCss
