import ScopedCss.Proofs.Compiler.Inputs
import ScopedCss.Proofs.Registry.Sharing
import ScopedCss.Proofs.Style.Partition

/-!
# What the content of a style object is

A name is computed from what a style object comes to, and not from how it was written down: nulls, blocks
with nothing else in them, and the places of properties among blocks do not count. So what counts is two
lists, the properties that are not null and the blocks in which something is left (`SameContent`). Objects
that agree on both compile to the same fragment, and in a registry there is one entry for all elements
that are built from them.
-/

namespace ScopedCss

namespace StyleObject

/-- The blocks in which something is left without the null values. -/
def contentBlocks (o : StyleObject) : List (String × Declarations) :=
  (blocks o.toList).filter fun g => !g.2.isEmpty

/-- The same properties in the same order, and the same blocks in the same order, as far as they are not
null and not empty. -/
structure SameContent (o o' : StyleObject) : Prop where
  properties_eq : properties o.toList = properties o'.toList
  blocks_eq : o.contentBlocks = o'.contentBlocks

/-- Equal content gives equal groups, unless there is a block under the empty key, which would be
mixed with the properties. -/
theorem SameContent.groups_eq {o o' : StyleObject} (hsame : SameContent o o')
    (h : ∀ d, o.get? "" ≠ some (.nested d)) (h' : ∀ d, o'.get? "" ≠ some (.nested d)) :
    o.groups = o'.groups := by
  have hblocks : (blocks o.toList).filter (fun g => !g.2.isEmpty) =
      (blocks o'.toList).filter fun g => !g.2.isEmpty := hsame.blocks_eq
  apply OrderedMap.ext_toList
  rw [StyleObject.groups_eq h, StyleObject.groups_eq h', List.filter_cons, List.filter_cons,
    hsame.properties_eq, hblocks]

end StyleObject

namespace StyleElement

/-- The name of a fragment that an element owns is a class name of its tree. -/
theorem className_mem_of_owned {e : StyleElement} {f : Fragment} (h : e.owned = some f) :
    f.className ∈ e.classNames := by
  obtain ⟨cs, owned⟩ := e
  cases h
  rw [classNames_node]
  exact List.mem_append_right _ (List.mem_singleton_self _)

end StyleElement

namespace Compiler

open StyleObject StyleInput

/-- Two objects without a block under the empty key that have the same properties and the same blocks, as
far as they are not null and not empty, are compiled to the same fragment, or both to nothing, whatever the
compilers were called for before. Elements that are built from the one and from the other share one entry
of a registry: once the first is inserted, the entry of the fragment stays as it is when the second is
inserted, but for the references that are counted. And the second can always be inserted if it is
composed of nothing but what the first is composed of; then the sink hears nothing of it, and no entry is
added. -/
theorem compile_eq_of_sameContent {o o' : StyleObject} (ho : ∀ d, o.get? "" ≠ some (.nested d))
    (ho' : ∀ d, o'.get? "" ≠ some (.nested d)) (hsame : SameContent o o') (h : ContentHash)
    (calls calls' : List CompilerCall) :
    let c := (ofHash h).after calls
    let c' := (ofHash h).after calls'
    (c.compile o).1 = (c'.compile o').1 ∧
      ∀ inputs inputs', mergeAll (objects inputs) = o → mergeAll (objects inputs') = o' →
        let e := (c.build inputs).1
        let e' := (c'.build inputs').1
        e.owned = e'.owned ∧ ∀ f, e.owned = some f →
          ∀ (σ : Type) [Sink σ] (r s : Registry σ) (reg : Registration), r.insert e = (.ok reg, s) →
            ∃ entry, s.entries.get? f.className = some entry ∧
              (∀ t reg', s.insert e' = (.ok reg', t) → t.entries.get? f.className =
                some { entry with count := entry.count + e'.occurrences f.className }) ∧
              ((∀ x ∈ elements inputs', x ∈ elements inputs) →
                ∃ t, s.insert e' = (.ok ⟨s.id, e'⟩, t) ∧ t.sink = s.sink ∧
                  t.entries.keys = s.entries.keys) := by
  intro c c'
  have hcompile : (c.compile o).1 = (c'.compile o').1 := by
    obtain ⟨_, hc, -⟩ := (faithful_after h calls).compile o
    obtain ⟨_, hc', -⟩ := (faithful_after h calls').compile o'
    rw [hc, hc', hsame.groups_eq ho ho']
  refine ⟨hcompile, ?_⟩
  intro inputs inputs' hinputs hinputs' e e'
  have he : e = .node (elements inputs) (c.compile o).1 := by rw [← hinputs]; rfl
  have he' : e' = .node (elements inputs') (c'.compile o').1 := by rw [← hinputs']; rfl
  have howned : e.owned = e'.owned := by rw [he, he']; exact hcompile
  refine ⟨howned, ?_⟩
  intro f hf σ _ r s reg hinsert
  have hlive : ∀ n ∈ e.classNames, 0 < s.refCount n := fun n hn => Registry.live_of_insert hinsert hn
  obtain ⟨entry, hentry⟩ := Registry.exists_entry_of_refCount_pos
    (hlive f.className (StyleElement.className_mem_of_owned hf))
  refine ⟨entry, hentry, fun t reg' ht => Registry.get?_insert hentry ht, ?_⟩
  intro hsub
  refine Registry.insert_live fun n hn => hlive n ?_
  -- A class of the second element is the common one, or comes from an element in both.
  rw [he', StyleElement.classNames_node, List.mem_append, StyleElement.classNamesOfAll,
    List.mem_flatMap] at hn
  rw [he, StyleElement.classNames_node, List.mem_append, StyleElement.classNamesOfAll,
    List.mem_flatMap, hcompile]
  rcases hn with ⟨x, hx, hn⟩ | hn
  · exact .inl ⟨x, hsub x hx, hn⟩
  · exact .inr hn

/-- Nulls, blocks with nothing else in them, and blocks between the properties, of which one stands under
the empty key. -/
theorem compile_eq_of_sameContent_scattered :
    let o : StyleObject := .ofList [("color", .value (.text "red")),
      ("&:hover", .nested (.ofList [("top", .text "1"), ("left", .null)])), ("width", .value .null),
      ("&:focus", .nested (.ofList [("color", .null)])), ("", .value (.text "x"))]
    let o' : StyleObject := .ofList [("&:active", .nested .empty), ("color", .value (.text "red")),
      ("", .value (.text "x")), ("&:hover", .nested (.ofList [("right", .null), ("top", .text "1")]))]
    let e := (new.build [.raw o]).1
    let e' := (new.build [.raw o']).1
    let r : Registry MemorySink := .new 0 ⟨.strict⟩ .empty
    SameContent o o' ∧ (new.compile o).1 = (new.compile o').1 ∧
      ∃ f s t entry, e.owned = some f ∧ r.insert e = (.ok ⟨0, e⟩, s) ∧
        s.insert e' = (.ok ⟨0, e'⟩, t) ∧ s.entries.get? f.className = some entry ∧
        t.entries.get? f.className = some { entry with count := entry.count + 1 } ∧
        t.sink = s.sink := by
  intro o o' e e' r
  have hnested : ∀ p : StyleObject, p.get? "" = some (.value (.text "x")) →
      ∀ d, p.get? "" ≠ some (.nested d) := by
    intro p hp d hd
    rw [hp] at hd
    cases hd
  have ho := hnested o (by decide +kernel)
  have ho' := hnested o' (by decide +kernel)
  have hsame : SameContent o o' := ⟨by decide +kernel, by decide +kernel⟩
  obtain ⟨hcompile, hshared⟩ := compile_eq_of_sameContent ho ho' hsame .standard [] []
  obtain ⟨howned, hentries⟩ := hshared [.raw o] [.raw o'] (mergeAll_cons o []) (mergeAll_cons o' [])
  obtain ⟨f, hf⟩ := Option.isSome_iff_exists.1 (by decide +kernel : e.owned.isSome = true)
  obtain ⟨s, hs⟩ : ∃ s, r.insert e = (.ok ⟨0, e⟩, s) := by
    have hanswer : (r.insert e).1 = .ok ⟨0, e⟩ := by decide +kernel
    exact ⟨(r.insert e).2, by rw [← hanswer]⟩
  obtain ⟨entry, hentry, hcount, hinsert⟩ := hentries f hf MemorySink r s _ hs
  obtain ⟨t, ht, hsink, -⟩ := hinsert fun x hx => by cases hx
  have hid : s.id = 0 := by
    have hcontinues := Registry.continues_insert r e
    rw [hs] at hcontinues
    exact hcontinues.id
  have hone : e'.occurrences f.className = 1 := by
    have he' : e' = .node [] (some f) := by
      rw [← hf]
      exact congrArg (StyleElement.node []) howned.symm
    simp [he', StyleElement.occurrences, StyleElement.occurrencesInAll]
  have hcount' : t.entries.get? f.className =
      some { entry with count := entry.count + e'.occurrences f.className } := hcount t _ ht
  rw [hone] at hcount'
  rw [hid] at ht
  exact ⟨hsame, hcompile, f, s, t, entry, hf, hs, ht, hentry, hcount', hsink⟩

end Compiler

end ScopedCss
