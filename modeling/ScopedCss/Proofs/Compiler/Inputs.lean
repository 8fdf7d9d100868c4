import ScopedCss.Proofs.Compiler.History
import ScopedCss.Proofs.Style.Merging

/-!
# The inputs of an element

An element is built from two kinds of inputs that do not mix: elements, which are composed in their
order, and style objects, which are merged in theirs. How the one are spread among the other does not
matter, and what is merged beforehand need not be merged again. So every list of inputs has a normal
form, the elements first and then one style object.
-/

namespace ScopedCss

namespace StyleInput

/-- The same elements, and one style object instead of all: what the objects come to. -/
def normalForm (inputs : List StyleInput) : List StyleInput :=
  (elements inputs).map .element ++ [.raw (StyleObject.mergeAll (objects inputs))]

theorem elements_map_element (es : List StyleElement) : elements (es.map .element) = es := by
  rw [elements, List.filterMap_map]
  exact List.filterMap_some

theorem objects_map_element (es : List StyleElement) : objects (es.map .element) = [] := by
  rw [objects, List.filterMap_map]
  exact List.filterMap_eq_nil_iff.2 fun _ _ => rfl

theorem elements_normalForm (inputs : List StyleInput) :
    elements (normalForm inputs) = elements inputs := by
  have happend : elements (normalForm inputs) = elements ((elements inputs).map .element) ++ [] :=
    List.filterMap_append
  rw [happend, elements_map_element, List.append_nil]

theorem objects_normalForm (inputs : List StyleInput) :
    objects (normalForm inputs) = [StyleObject.mergeAll (objects inputs)] := by
  have happend : objects (normalForm inputs) = objects ((elements inputs).map .element) ++
      [StyleObject.mergeAll (objects inputs)] := List.filterMap_append
  rw [happend, objects_map_element, List.nil_append]

end StyleInput

namespace Compiler

open StyleInput StyleObject

/-- Two compilers with the same hash build the same element if the elements among the inputs are the
same and the style objects among them come to the same. -/
theorem build_congr (h : ContentHash) (calls calls' : List CompilerCall)
    {inputs inputs' : List StyleInput} (helements : elements inputs = elements inputs')
    (hobjects : mergeAll (objects inputs) = mergeAll (objects inputs')) :
    (((ofHash h).after calls).build inputs).1 = (((ofHash h).after calls').build inputs').1 := by
  obtain ⟨c, hbuild, -⟩ := (faithful_after h calls).build inputs
  obtain ⟨c', hbuild', -⟩ := (faithful_after h calls').build inputs'
  rw [hbuild, hbuild', helements, hobjects]

/-- An element is built as from the normal form of its inputs: the elements among them in their order,
then one style object that all style objects among them were merged to. So inputs with the same elements
in the same order build the same element, with the same class list, if they have the same style objects in
the same order, wherever these stand, or if some of the first style objects were merged to one beforehand.
Nothing depends on what the compilers were called for before. -/
theorem build_eq_build_normalForm (h : ContentHash) (calls calls' : List CompilerCall)
    (inputs : List StyleInput) :
    (((ofHash h).after calls).build inputs).1 =
        (((ofHash h).after calls').build (normalForm inputs)).1 ∧
      ∀ (inputs' : List StyleInput) (lead rest : List StyleObject),
        elements inputs' = elements inputs → objects inputs = lead ++ rest →
        objects inputs' = lead ++ rest ∨ objects inputs' = mergeAll lead :: rest →
        (((ofHash h).after calls).build inputs).1 = (((ofHash h).after calls').build inputs').1 := by
  constructor
  · refine build_congr h calls calls' (elements_normalForm inputs).symm ?_
    rw [objects_normalForm, mergeAll_cons]
    rfl
  · intro inputs' lead rest helements hobjects hsame
    refine build_congr h calls calls' helements.symm ?_
    rw [hobjects]
    rcases hsame with hsame | hmerged
    · rw [hsame]
    · rw [hmerged, mergeAll_mergeAll_cons]

/-- An element between style objects with a common block, of which the first two are merged beforehand. -/
theorem build_eq_build_normalForm_merged :
    let a : StyleObject := ⟨[("&:hover", .nested ⟨[("top", .text "1")], by decide⟩)], by decide⟩
    let b : StyleObject := ⟨[("color", .value (.text "red")),
      ("&:hover", .nested ⟨[("left", .text "2"), ("top", .null)], by decide⟩)], by decide⟩
    let c : StyleObject := ⟨[("color", .value (.text "blue"))], by decide⟩
    let e := (new.build [.raw c]).1
    let inputs : List StyleInput := [.raw a, .element e, .raw b, .raw c, .element .empty]
    let inputs' : List StyleInput := [.element e, .element .empty, .raw (mergeAll [a, b]), .raw c]
    elements inputs' = elements inputs ∧ objects inputs = [a, b] ++ [c] ∧
      objects inputs' = mergeAll [a, b] :: [c] ∧
      (new.build inputs).1 = (new.build (normalForm inputs)).1 ∧
      (new.build inputs).1 = (new.build inputs').1 := by
  intro a b c e inputs inputs'
  obtain ⟨hnormal, hsame⟩ := build_eq_build_normalForm .standard [] [] inputs
  exact ⟨rfl, rfl, rfl, hnormal, hsame inputs' [a, b] [c] rfl rfl (.inr rfl)⟩

end Compiler

end ScopedCss
