import ScopedCss.Proofs.Compiler.History
import ScopedCss.Proofs.ContentHash
import ScopedCss.Proofs.Style.Groups

/-!
# What compilation means

The output of the compiler, told by the shape of the texts: how a value is written (`Written`), which
body a block has (`BodyOf`), and which rule belongs to a class, a group key and a body (`RuleOf`). A
fragment has one rule of this shape for each group, and its name is the hash of the bodies.
-/

namespace ScopedCss

/-! ## Bodies -/

/-- How a value of the property `spelled` is written. Null is not written at all. -/
inductive Written (spelled : String) : StyleValue → String → Prop where
  /-- A text is written as it is. -/
  | text (s : String) : Written spelled (.text s) s
  /-- A number stays bare for the properties that take bare numbers. -/
  | bare {x : Binary64} (h : spelled ∈ unitlessProperties) :
      Written spelled (.number x) (renderNumber x)
  /-- Any other number is in pixels. -/
  | pixels {x : Binary64} (h : spelled ∉ unitlessProperties) :
      Written spelled (.number x) (renderNumber x ++ "px")

/-- The body of a block: a pair `property:value;` for each declaration, in order. -/
inductive BodyOf : List (String × StyleValue) → String → Prop where
  | nil : BodyOf [] ""
  | cons {name text body : String} {v : StyleValue} {rest : List (String × StyleValue)}
      (head : Written (hyphenate name) v text) (tail : BodyOf rest body) :
      BodyOf ((name, v) :: rest) (hyphenate name ++ ":" ++ text ++ ";" ++ body)

/-- Every value but null is written in one of the three ways. -/
theorem written_render (spelled : String) {v : StyleValue} (hv : v ≠ .null) :
    ∃ text, v.render spelled = some text ∧ Written spelled v text := by
  cases v with
  | text s => exact ⟨s, rfl, .text s⟩
  | null => exact absurd rfl hv
  | number x =>
    rw [StyleValue.render]
    by_cases hbare : isUnitless spelled = true
    · rw [if_pos hbare]
      exact ⟨_, rfl, .bare (List.contains_iff_mem.1 hbare)⟩
    · rw [if_neg hbare]
      exact ⟨_, rfl, .pixels fun h => hbare (List.contains_iff_mem.2 h)⟩

/-- The body of a block without nulls is made of its declarations, in order. -/
theorem bodyOf_bodyText {ps : List (String × StyleValue)} (h : ∀ p ∈ ps, p.2 ≠ .null) :
    BodyOf ps (bodyText ps) := by
  induction ps with
  | nil => exact .nil
  | cons p ps ih =>
    obtain ⟨name, v⟩ := p
    have hv : v ≠ .null := h (name, v) List.mem_cons_self
    have hrest : BodyOf ps (bodyText ps) := ih fun p hp => h p (List.mem_cons_of_mem _ hp)
    obtain ⟨text, hrender, hwritten⟩ := written_render (hyphenate name) hv
    have hbody : bodyText ((name, v) :: ps) =
        hyphenate name ++ ":" ++ text ++ ";" ++ bodyText ps := by
      rw [bodyText, declarationText, hrender]
    rw [hbody]
    exact .cons hwritten hrest

/-- A block that declares something has a body. -/
theorem BodyOf.ne_empty {ps : List (String × StyleValue)} {body : String} (h : BodyOf ps body)
    (hps : ps ≠ []) : body ≠ "" := by
  cases h with
  | nil => exact absurd rfl hps
  | cons head tail =>
    intro e
    have hlist := congrArg String.toList e
    simp at hlist

/-! ## Rules -/

/-- The text of the rule of the class `n` for the group with a key and a body. -/
inductive RuleOf (n : ClassName) (body : String) : String → String → Prop where
  /-- The rule of the class itself. -/
  | base : RuleOf n body "" ("." ++ n.text ++ "\x7b" ++ body ++ "\x7d")
  /-- The rule of the class inside an at-rule. -/
  | atRule {key : String} (h : key.toList.head? = some '@') :
      RuleOf n body key (key ++ "\x7b" ++ "." ++ n.text ++ "\x7b" ++ body ++ "\x7d\x7d")
  /-- The key as selector, with the selector of the class between its pieces in place of `&`. -/
  | selector {key : String} (hne : key ≠ "") (h : key.toList.head? ≠ some '@') :
      RuleOf n body key (String.ofList (("." ++ n.text).toList.intercalate (key.toList.splitOn '&'))
        ++ "\x7b" ++ body ++ "\x7d")

/-- To split at a character and to put something else between the pieces is to replace the
character. -/
theorem intercalate_splitOn_eq_flatMap (sep : List Char) (x : Char) (cs : List Char) :
    sep.intercalate (cs.splitOn x) = cs.flatMap fun c => if c = x then sep else [c] := by
  induction cs with
  | nil => rfl
  | cons c cs ih =>
    rw [List.splitOn_cons_eq_if_modifyHead, List.flatMap_cons, ← ih]
    have hne : cs.splitOn x ≠ [] := List.splitOn_ne_nil x cs
    by_cases h : c = x
    · rw [if_pos (beq_iff_eq.2 h), if_pos h, List.intercalate_cons_of_ne_nil hne]
      rfl
    · rw [if_neg fun e => h (beq_iff_eq.1 e), if_neg h]
      obtain ⟨piece, pieces, hpieces⟩ := List.exists_cons_of_ne_nil hne
      rw [hpieces, List.modifyHead_cons, List.intercalate_cons_cons_left]
      rfl

/-- The kind of a group key by its first character. -/
theorem groupKind_of_eq (key : String) : GroupKind.of key =
    if key = "" then .base else if key.toList.head? = some '@' then .atRule else .selector := by
  rw [GroupKind.of]
  cases hkey : key.toList with
  | nil => rw [if_pos (String.toList_eq_nil_iff.1 hkey)]
  | cons c cs =>
    have hne : key ≠ "" := by
      rintro rfl
      cases hkey
    rw [if_neg hne, List.head?_cons]
    by_cases hc : c = '@'
    · subst hc
      rfl
    · rw [if_neg (by simpa using hc)]
      split
      · next h => cases h
      · next h => exact absurd (List.cons.inj h).1 hc
      · rfl

/-- The rule of a group has the text that its kind asks for. -/
theorem ruleOf_groupRule (n : ClassName) (key body : String) :
    RuleOf n body key (groupRule n key body).text := by
  rw [groupRule, groupKind_of_eq]
  by_cases hempty : key = ""
  · subst hempty
    exact .base
  · rw [if_neg hempty]
    by_cases hat : key.toList.head? = some '@'
    · rw [if_pos hat]
      have htext : blockText key (blockText n.selector body) =
          key ++ "\x7b" ++ "." ++ n.text ++ "\x7b" ++ body ++ "\x7d\x7d" := by
        apply String.ext
        simp [blockText, ClassName.selector]
      show RuleOf n body key (blockText key (blockText n.selector body))
      rw [htext]
      exact .atRule hat
    · rw [if_neg hat]
      have hfill : fillSelector key n =
          String.ofList (("." ++ n.text).toList.intercalate (key.toList.splitOn '&')) := by
        rw [intercalate_splitOn_eq_flatMap]
        rfl
      show RuleOf n body key (blockText (fillSelector key n) body)
      rw [hfill]
      exact .selector hempty hat

/-! ## Fragments -/

namespace Compiler

/-- Whatever a compiler was called for before, it compiles a style object to nothing exactly if the
object has no groups. Otherwise each group has a body that is not empty, the bodies stand under
distinct keys, and the fragment has one rule for each of them, in order. The name is the hash of the
bodies, written as a JSON object in the same order; it passes the check for class names, and it has at
most six letters. -/
theorem compile_meaning (h : ContentHash) (calls : List CompilerCall) (o : StyleObject) :
    match (((ofHash h).after calls).compile o).1 with
    | none => o.groups.toList = []
    | some f => o.groups.toList ≠ [] ∧ ∃ bodies : List (String × String),
        List.Forall₂ (fun g b => b.1 = g.1 ∧ BodyOf g.2.toList b.2 ∧ b.2 ≠ "") o.groups.toList
          bodies ∧
        (OrderedMap.ofList bodies).toList = bodies ∧
        List.Forall₂ (fun b rule => RuleOf f.className b.2 b.1 rule.text) bodies f.rules ∧
        let content := (Json.object (bodies.map fun b => (b.1, .string b.2))).write
        f.className = h.identifier content ∧
        ClassName.ofText (letterNumeral (h.ofText content).toNat) = .ok f.className ∧
        1 ≤ f.className.text.length ∧ f.className.text.length ≤ 6 ∧
        ∀ c ∈ f.className.text.toList, c.isAlpha = true := by
  obtain ⟨c, hcompile, -⟩ := (faithful_after h calls).compile o
  rw [hcompile, fragmentOf]
  by_cases hgroups : o.groups.toList = []
  · rw [if_pos (List.isEmpty_iff.2 hgroups)]
    exact hgroups
  · rw [if_neg fun e => hgroups (List.isEmpty_iff.1 e)]
    have hbodies : List.Forall₂ (fun g b => b.1 = g.1 ∧ BodyOf g.2.toList b.2 ∧ b.2 ≠ "")
        o.groups.toList (bodiesOf o.groups.toList) := by
      refine List.forall₂_map_right_iff.2 (List.forall₂_same.2 fun g hg => ?_)
      obtain ⟨hne, hdeclares⟩ := StyleObject.mem_groups hg
      have hbody : BodyOf g.2.toList (bodyText g.2.toList) :=
        bodyOf_bodyText fun p hp => (hdeclares p hp).1
      exact ⟨rfl, hbody, hbody.ne_empty hne⟩
    have hkeys : Pairs.keys (bodiesOf o.groups.toList) = Pairs.keys o.groups.toList := by
      rw [bodiesOf, Pairs.keys, List.map_map]
      rfl
    have hnodup : (Pairs.keys (bodiesOf o.groups.toList)).Nodup := hkeys ▸ o.groups.nodup_keys
    refine ⟨hgroups, bodiesOf o.groups.toList, hbodies, OrderedMap.toList_ofList hnodup, ?_, rfl,
      ClassName.ofText_text (h.identifier (contentText (bodiesOf o.groups.toList))), ?_⟩
    · refine List.forall₂_map_right_iff.2 (List.forall₂_same.2 fun b _ => ?_)
      exact ruleOf_groupRule _ b.1 b.2
    · obtain ⟨hpos, hle⟩ := h.length_identifier (contentText (bodiesOf o.groups.toList))
      exact ⟨hpos, hle, (h.identifier _).isClassText.2⟩

end Compiler

end ScopedCss
