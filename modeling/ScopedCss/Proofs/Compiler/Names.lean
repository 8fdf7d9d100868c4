import Mathlib.Data.List.DropRight
import ScopedCss.Proofs.Compiler.History
import ScopedCss.Proofs.Style.Groups

/-!
# The names in the memory

A compiler's memory cannot be seen in its answers. It can be seen in its size, which is how many
property names the compiler has met since it last forgot them. In a block that is rendered as it is,
every name is met. What is merged and grouped first is met only as far as it is still there
(`StyleObject.mem_names_groups_iff`).
-/

namespace ScopedCss

/-! ## Calls and answers -/

/-- What a compiler answers to a call. -/
inductive CompilerAnswer where
  /-- The text of a block. -/
  | body (text : String)
  /-- A rule that belongs to no class. -/
  | rule (rule : StyleRule)
  /-- The fragment of a style object, if anything is declared in it. -/
  | fragment (owned : Option Fragment)
  /-- An element. -/
  | element (e : StyleElement)
  /-- Nothing: the names are forgotten. -/
  | cleared

namespace CompilerCall

/-- The blocks that are rendered in a call. -/
def blocks : CompilerCall → List Declarations
  | .renderDeclarations d => [d]
  | .renderGlobal _ d => [d]
  | .compile o => o.groups.values
  | .build inputs => (StyleObject.mergeAll (StyleInput.objects inputs)).groups.values
  | .clearNames => []

/-- The property names that are met in a call. -/
def names (k : CompilerCall) : List String := k.blocks.flatMap OrderedMap.keys

/-- Whether the names are forgotten. -/
def isClear : CompilerCall → Bool
  | .clearNames => true
  | _ => false

end CompilerCall

/-- The property names that are met in the calls that come after the names were last forgotten. -/
def namesSinceClear (calls : List CompilerCall) : List String :=
  (calls.rtakeWhile fun k => !k.isClear).flatMap CompilerCall.names

/-- A further call adds its names to those met since the memory was last cleared, or clears it. -/
theorem namesSinceClear_concat (calls : List CompilerCall) (k : CompilerCall) :
    namesSinceClear (calls ++ [k]) = if k.isClear then [] else namesSinceClear calls ++ k.names := by
  rw [namesSinceClear, List.rtakeWhile_concat]
  cases k.isClear with
  | true => rfl
  | false =>
    show List.flatMap CompilerCall.names (_ ++ [k]) = _
    rw [List.flatMap_append, List.flatMap_singleton]
    rfl

namespace Compiler

/-- What the compiler answers to a call. -/
def answer (c : Compiler) : CompilerCall → CompilerAnswer
  | .renderDeclarations d => .body (c.renderDeclarations d).1
  | .renderGlobal selector d => .rule (c.renderGlobal selector d).1
  | .compile o => .fragment (c.compile o).1
  | .build inputs => .element (c.build inputs).1
  | .clearNames => .cleared

variable {h : ContentHash} {c : Compiler}

/-- Two compilers with the same hash answer the same if what they remember is right. -/
theorem Faithful.answer_eq {c₁ c₂ : Compiler} (hc₁ : Faithful h c₁) (hc₂ : Faithful h c₂)
    (k : CompilerCall) : c₁.answer k = c₂.answer k := by
  cases k with
  | renderDeclarations d =>
    obtain ⟨_, h₁, -⟩ := hc₁.renderDeclarations d
    obtain ⟨_, h₂, -⟩ := hc₂.renderDeclarations d
    rw [answer, answer, h₁, h₂]
  | renderGlobal selector d =>
    obtain ⟨_, h₁, -⟩ := hc₁.renderGlobal selector d
    obtain ⟨_, h₂, -⟩ := hc₂.renderGlobal selector d
    rw [answer, answer, h₁, h₂]
  | compile o =>
    obtain ⟨_, h₁, -⟩ := hc₁.compile o
    obtain ⟨_, h₂, -⟩ := hc₂.compile o
    rw [answer, answer, h₁, h₂]
  | build inputs =>
    obtain ⟨_, h₁, -⟩ := hc₁.build inputs
    obtain ⟨_, h₂, -⟩ := hc₂.build inputs
    rw [answer, answer, h₁, h₂]
  | clearNames => rfl

/-! ## What is remembered -/

/-- To hyphenate a name is to remember it. -/
theorem mem_names_hyphenate (c : Compiler) (name name' : String) :
    name' ∈ (c.hyphenate name).2.names.keys ↔ name' ∈ c.names.keys ∨ name' = name := by
  unfold Compiler.hyphenate PropertyNames.hyphenate
  cases hget : c.names.get? name with
  | some spelled =>
    constructor
    · exact .inl
    · rintro (hmem | rfl)
      · exact hmem
      · exact OrderedMap.mem_keys_of_get? hget
  | none => exact OrderedMap.mem_keys_set

/-- To render declarations is to remember their names. -/
theorem mem_names_renderPairs (c : Compiler) (ps : List (String × StyleValue)) (name : String) :
    name ∈ (c.renderPairs ps).2.names.keys ↔ name ∈ c.names.keys ∨ name ∈ Pairs.keys ps := by
  induction ps generalizing c with
  | nil => simp [renderPairs]
  | cons p ps ih =>
    show name ∈ ((c.hyphenate p.1).2.renderPairs ps).2.names.keys ↔ _
    rw [ih, mem_names_hyphenate, or_assoc, ← List.mem_cons]
    rfl

/-- To render groups is to remember the names in all of them. -/
theorem mem_names_renderGroups (c : Compiler) (groups : List (String × Declarations))
    (name : String) :
    name ∈ (c.renderGroups groups).2.names.keys ↔
      name ∈ c.names.keys ∨ name ∈ (groups.map Prod.snd).flatMap OrderedMap.keys := by
  induction groups generalizing c with
  | nil => simp [renderGroups]
  | cons g groups ih =>
    show name ∈ ((c.renderDeclarations g.2).2.renderGroups groups).2.names.keys ↔ _
    rw [ih, renderDeclarations, mem_names_renderPairs, List.map_cons, List.flatMap_cons,
      List.mem_append, or_assoc]
    rfl

/-- To compile an object is to remember the names that are left in its groups. -/
theorem mem_names_compile (c : Compiler) (o : StyleObject) (name : String) :
    name ∈ (c.compile o).2.names.keys ↔
      name ∈ c.names.keys ∨ name ∈ o.groups.values.flatMap OrderedMap.keys := by
  have hgroups := mem_names_renderGroups c o.groups.toList name
  unfold compile
  by_cases hempty : o.groups.isEmpty = true
  · have hnil : o.groups.toList = [] := List.isEmpty_iff.1 hempty
    rw [if_pos hempty, OrderedMap.values, hnil]
    simp
  · rw [if_neg hempty]
    exact hgroups

/-- A call adds the names that are met in it, unless it drops all names. -/
theorem mem_names_call (c : Compiler) (k : CompilerCall) (name : String) :
    name ∈ (c.call k).names.keys ↔
      k.isClear = false ∧ (name ∈ c.names.keys ∨ name ∈ k.names) := by
  have hblock : ∀ d : Declarations, name ∈ (c.renderDeclarations d).2.names.keys ↔
      name ∈ c.names.keys ∨ name ∈ List.flatMap OrderedMap.keys [d] := by
    intro d
    rw [List.flatMap_singleton]
    exact mem_names_renderPairs c d.toList name
  cases k with
  | renderDeclarations d => exact (hblock d).trans (and_iff_right rfl).symm
  | renderGlobal selector d => exact (hblock d).trans (and_iff_right rfl).symm
  | compile o => exact (mem_names_compile c o name).trans (and_iff_right rfl).symm
  | build inputs => exact (mem_names_compile c _ name).trans (and_iff_right rfl).symm
  | clearNames =>
    constructor
    · intro hmem
      cases hmem
    · rintro ⟨hclear, -⟩
      cases hclear

theorem after_concat (c : Compiler) (calls : List CompilerCall) (k : CompilerCall) :
    c.after (calls ++ [k]) = (c.after calls).call k := by
  rw [after, List.foldl_append]
  rfl

/-- A compiler remembers exactly the names that it has met since its memory was last cleared. -/
theorem mem_names_after (h : ContentHash) (calls : List CompilerCall) (name : String) :
    name ∈ ((ofHash h).after calls).names.keys ↔ name ∈ namesSinceClear calls := by
  induction calls using List.reverseRecOn with
  | nil => exact Iff.rfl
  | append_singleton calls k ih =>
    rw [after_concat, mem_names_call, namesSinceClear_concat]
    cases k.isClear with
    | true => simp
    | false => simp [ih]

theorem size_names_after (h : ContentHash) (calls : List CompilerCall) :
    ((ofHash h).after calls).names.size = (namesSinceClear calls).dedup.length := by
  have hperm : ((ofHash h).after calls).names.keys.Perm (namesSinceClear calls).dedup :=
    perm_dedup_of_nodup (OrderedMap.nodup_keys _) (mem_names_after h calls)
  rw [← hperm.length_eq]
  exact (List.length_map _).symm

/-- The names of a style object that are met are those that have a value somewhere in it which is not
null. -/
theorem mem_names_iff_declares (o : StyleObject) (name : String) :
    name ∈ (CompilerCall.compile o).names ↔ ∃ key v, StyleObject.Declares o.toList key (name, v) := by
  simp only [← StyleObject.mem_names_groups_iff]
  constructor
  · intro hname
    obtain ⟨d, hd, hname⟩ := List.mem_flatMap.1 hname
    obtain ⟨⟨key, d⟩, hg, rfl⟩ := List.mem_map.1 hd
    exact ⟨key, d, hg, hname⟩
  · rintro ⟨key, d, hg, hname⟩
    exact List.mem_flatMap.2 ⟨d, List.mem_map.2 ⟨(key, d), hg, rfl⟩, hname⟩

/-- Whatever a compiler has been called for, it answers every call as a fresh compiler with the same
hash does. It remembers as many names as there are different ones among those that it has met since
they were last forgotten: of a block all of them, but of a style object, or of the merged inputs of an
element, only those that have a value which is not null. -/
theorem memory_is_invisible (h : ContentHash) (calls : List CompilerCall) :
    (∀ k, ((ofHash h).after calls).answer k = (ofHash h).answer k) ∧
      ((ofHash h).after calls).names.size = (namesSinceClear calls).dedup.length ∧
      (∀ d, (CompilerCall.renderDeclarations d).names = d.keys) ∧
      (∀ selector d, (CompilerCall.renderGlobal selector d).names = d.keys) ∧
      (∀ (o : StyleObject) (name : String), name ∈ (CompilerCall.compile o).names ↔
        ∃ key v, StyleObject.Declares o.toList key (name, v)) ∧
      ∀ (inputs : List StyleInput) (name : String), name ∈ (CompilerCall.build inputs).names ↔
        ∃ key v, StyleObject.Declares
          (StyleObject.mergeAll (StyleInput.objects inputs)).toList key (name, v) := by
  refine ⟨(faithful_after h calls).answer_eq (faithful_ofHash h), size_names_after h calls, ?_, ?_,
    mem_names_iff_declares, ?_⟩
  · intro d
    exact List.flatMap_singleton _ _
  · intro selector d
    exact List.flatMap_singleton _ _
  · intro inputs name
    exact mem_names_iff_declares _ name

/-- A null value counts in a block that is rendered as it is. -/
example (h : ContentHash) :
    let d : Declarations := ⟨[("color", .null), ("marginTop", .text "0")], by decide⟩
    ((ofHash h).after [.renderDeclarations d]).names.size = 2 ∧
      ((ofHash h).after [.renderDeclarations d, .clearNames,
        .compile ⟨[("&:hover", .nested d)], by decide⟩]).names.size = 1 := by
  constructor <;> rfl

end Compiler

end ScopedCss
