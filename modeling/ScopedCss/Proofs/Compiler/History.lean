import ScopedCss.Compiler
import ScopedCss.Proofs.OrderedMap

/-!
# What a compiler remembers

A compiler may be called many times, and every call that renders declarations adds to the names that
it remembers. What it remembers is always right: a name goes with the spelling that would be worked
out for it anyway. So a compiler answers from its hash alone, whatever it was called for before, and
each function that renders has an equation without a memory (`bodyText`, `fragmentOf`).
-/

namespace ScopedCss

/-! ## Rendering without a memory -/

/-- The body that declarations are rendered as. -/
def bodyText : List (String × StyleValue) → String
  | [] => ""
  | (name, v) :: rest => declarationText (hyphenate name) v ++ bodyText rest

/-- The bodies of groups, each under the key of its group. -/
def bodiesOf (groups : List (String × Declarations)) : List (String × String) :=
  groups.map fun g => (g.1, bodyText g.2.toList)

/-- The fragment that groups are compiled to. -/
def fragmentOf (h : ContentHash) (groups : List (String × Declarations)) : Option Fragment :=
  if groups.isEmpty then none
  else
    let bodies := bodiesOf groups
    let name := h.identifier (contentText bodies)
    some ⟨name, bodies.map fun b => groupRule name b.1 b.2⟩

/-- A fragment has one rule for each group, with the body of this group. -/
theorem rules_fragmentOf {h : ContentHash} {groups : List (String × Declarations)} {f : Fragment}
    (hf : fragmentOf h groups = some f) :
    f.rules = groups.map fun g => groupRule f.className g.1 (bodyText g.2.toList) := by
  unfold fragmentOf at hf
  split at hf
  · cases hf
  · cases hf
    exact List.map_map

theorem exists_fragmentOf {groups : List (String × Declarations)} (h : ContentHash)
    (hne : groups ≠ []) : ∃ f, fragmentOf h groups = some f := by
  unfold fragmentOf
  rw [if_neg fun hempty => hne (List.isEmpty_iff.1 hempty)]
  exact ⟨_, rfl⟩

/-! ## Histories of calls -/

/-- What a compiler can be called for. -/
inductive CompilerCall where
  /-- Renders a block. -/
  | renderDeclarations (d : Declarations)
  /-- Renders a rule that belongs to no class. -/
  | renderGlobal (selector : String) (d : Declarations)
  /-- Compiles a style object. -/
  | compile (o : StyleObject)
  /-- Builds an element. -/
  | build (inputs : List StyleInput)
  /-- Forgets the names. -/
  | clearNames

namespace Compiler

/-- The compiler after a call. -/
def call (c : Compiler) : CompilerCall → Compiler
  | .renderDeclarations d => (c.renderDeclarations d).2
  | .renderGlobal selector d => (c.renderGlobal selector d).2
  | .compile o => (c.compile o).2
  | .build inputs => (c.build inputs).2
  | .clearNames => c.clearNames

/-- The compiler after several calls. -/
def after (c : Compiler) (calls : List CompilerCall) : Compiler := calls.foldl call c

/-- The compiler has the hash `h`, and remembers nothing but right spellings. -/
structure Faithful (h : ContentHash) (c : Compiler) : Prop where
  hash : c.hash = h
  names : ∀ name spelled, c.names.get? name = some spelled → spelled = ScopedCss.hyphenate name

variable {h : ContentHash} {c : Compiler}

theorem faithful_ofHash (h : ContentHash) : Faithful h (ofHash h) := by
  constructor
  · rfl
  · intro name spelled hget
    cases hget

/-! ## Calls -/

theorem Faithful.clearNames (hc : Faithful h c) : Faithful h c.clearNames := by
  constructor
  · exact hc.hash
  · intro name spelled hget
    cases hget

/-- A name that is remembered is the one that would be worked out, and one that is not is worked out
and then remembered. -/
theorem Faithful.hyphenate (hc : Faithful h c) (name : String) :
    ∃ c', c.hyphenate name = (ScopedCss.hyphenate name, c') ∧ Faithful h c' := by
  unfold Compiler.hyphenate PropertyNames.hyphenate
  cases hget : c.names.get? name with
  | some spelled =>
    have hspelled : spelled = ScopedCss.hyphenate name := hc.names name spelled hget
    exact ⟨c, by rw [← hspelled], hc⟩
  | none =>
    refine ⟨_, rfl, hc.hash, ?_⟩
    intro name' spelled hget'
    rw [OrderedMap.get?_set] at hget'
    split at hget'
    · next e =>
      cases hget'
      rw [e]
    · exact hc.names name' spelled hget'

/-- Declarations are rendered as they would be without a memory. The induction is on the
declarations, with the compiler general. -/
theorem Faithful.renderPairs (hc : Faithful h c) (ps : List (String × StyleValue)) :
    ∃ c', c.renderPairs ps = (bodyText ps, c') ∧ Faithful h c' := by
  induction ps generalizing c with
  | nil => exact ⟨c, rfl, hc⟩
  | cons p ps ih =>
    obtain ⟨name, v⟩ := p
    obtain ⟨c₁, hname, hc₁⟩ := hc.hyphenate name
    obtain ⟨c₂, hrest, hc₂⟩ := ih hc₁
    refine ⟨c₂, ?_, hc₂⟩
    simp only [Compiler.renderPairs, hname, hrest, bodyText]

theorem Faithful.renderDeclarations (hc : Faithful h c) (d : Declarations) :
    ∃ c', c.renderDeclarations d = (bodyText d.toList, c') ∧ Faithful h c' :=
  hc.renderPairs d.toList

theorem Faithful.renderGlobal (hc : Faithful h c) (selector : String) (d : Declarations) :
    ∃ c', c.renderGlobal selector d = (⟨blockText selector (bodyText d.toList)⟩, c') ∧
      Faithful h c' := by
  obtain ⟨c', hbody, hc'⟩ := hc.renderDeclarations d
  refine ⟨c', ?_, hc'⟩
  rw [Compiler.renderGlobal, hbody]

/-- Groups are rendered as they would be without a memory. -/
theorem Faithful.renderGroups (hc : Faithful h c) (groups : List (String × Declarations)) :
    ∃ c', c.renderGroups groups = (bodiesOf groups, c') ∧ Faithful h c' := by
  induction groups generalizing c with
  | nil => exact ⟨c, rfl, hc⟩
  | cons g groups ih =>
    obtain ⟨key, d⟩ := g
    obtain ⟨c₁, hbody, hc₁⟩ := hc.renderDeclarations d
    obtain ⟨c₂, hrest, hc₂⟩ := ih hc₁
    refine ⟨c₂, ?_, hc₂⟩
    simp only [Compiler.renderGroups, hbody, hrest]
    rfl

/-- An object is compiled as it would be without a memory. -/
theorem Faithful.compile (hc : Faithful h c) (o : StyleObject) :
    ∃ c', c.compile o = (fragmentOf h o.groups.toList, c') ∧ Faithful h c' := by
  unfold Compiler.compile fragmentOf OrderedMap.isEmpty
  by_cases hempty : o.groups.toList.isEmpty = true
  · refine ⟨c, ?_, hc⟩
    simp only [hempty, if_true]
  · obtain ⟨c', hbodies, hc'⟩ := hc.renderGroups o.groups.toList
    refine ⟨c', ?_, hc'⟩
    simp only [hempty, hbodies, hc'.hash]
    rfl

theorem Faithful.build (hc : Faithful h c) (inputs : List StyleInput) :
    ∃ c', c.build inputs = (.node (StyleInput.elements inputs)
      (fragmentOf h (StyleObject.mergeAll (StyleInput.objects inputs)).groups.toList), c') ∧
      Faithful h c' := by
  obtain ⟨c', howned, hc'⟩ := hc.compile (StyleObject.mergeAll (StyleInput.objects inputs))
  refine ⟨c', ?_, hc'⟩
  rw [Compiler.build, howned]

/-- No call puts anything wrong into the memory. -/
theorem Faithful.call (hc : Faithful h c) (k : CompilerCall) : Faithful h (c.call k) := by
  cases k with
  | renderDeclarations d =>
    obtain ⟨c', heq, hc'⟩ := hc.renderDeclarations d
    rwa [Compiler.call, heq]
  | renderGlobal selector d =>
    obtain ⟨c', heq, hc'⟩ := hc.renderGlobal selector d
    rwa [Compiler.call, heq]
  | compile o =>
    obtain ⟨c', heq, hc'⟩ := hc.compile o
    rwa [Compiler.call, heq]
  | build inputs =>
    obtain ⟨c', heq, hc'⟩ := hc.build inputs
    rwa [Compiler.call, heq]
  | clearNames => exact hc.clearNames

/-- Whatever a compiler has been called for, its memory is right. -/
theorem faithful_after (h : ContentHash) (calls : List CompilerCall) :
    Faithful h ((ofHash h).after calls) := by
  suffices hall : ∀ c, Faithful h c → Faithful h (c.after calls) from hall _ (faithful_ofHash h)
  induction calls with
  | nil => intro c hc; exact hc
  | cons k calls ih => intro c hc; exact ih (c.call k) (hc.call k)

end Compiler

end ScopedCss
