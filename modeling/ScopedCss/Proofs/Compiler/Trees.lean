import ScopedCss.Proofs.Client.Styling
import ScopedCss.Proofs.Compiler.History

/-!
# What an element says about its tree

The class list of an element is joined from class lists that were joined before, and the empty ones
among them are skipped at every level. The rules are collected by a walk of their own. Both describe
the same tree: its fragments, children first, once per path. Since no class name is empty and none has
a blank in it, the class list can be taken apart again, and it is empty only if there is no fragment.
-/

namespace ScopedCss

/-! ## Joined texts -/

/-- Texts that are not empty are joined to the empty text only if there are none. -/
theorem intercalate_eq_empty_iff {ts : List String} (h : ∀ t ∈ ts, t ≠ "") :
    " ".intercalate ts = "" ↔ ts = [] := by
  constructor
  · intro hempty
    cases ts with
    | nil => rfl
    | cons t ts =>
      have ht : t ≠ "" := h t List.mem_cons_self
      by_cases hts : ts = []
      · rw [hts, String.intercalate_singleton] at hempty
        exact absurd hempty ht
      · rw [String.intercalate_cons_of_ne_nil hts] at hempty
        simp [ht] at hempty
  · rintro rfl
    rfl

/-- Joining texts that were joined before, without the empty ones, is joining all of them at once. -/
theorem intercalate_joined {tss : List (List String)} (h : ∀ ts ∈ tss, ∀ t ∈ ts, t ≠ "") :
    " ".intercalate ((tss.map " ".intercalate).filter fun t => t ≠ "") =
      " ".intercalate tss.flatten := by
  induction tss with
  | nil => rfl
  | cons ts tss ih =>
    have hts : " ".intercalate ts = "" ↔ ts = [] :=
      intercalate_eq_empty_iff (h ts List.mem_cons_self)
    have hrest := ih fun ts' hts' => h ts' (List.mem_cons_of_mem _ hts')
    rw [List.map_cons, List.flatten_cons]
    by_cases hempty : ts = []
    · rw [List.filter_cons_of_neg (by simp [hempty]), hrest, hempty, List.nil_append]
    · rw [List.filter_cons_of_pos (by simp [hts, hempty])]
      by_cases hflat : tss.flatten = []
      · -- Nothing but empty texts is left, and they are all skipped.
        have hskipped : ((tss.map " ".intercalate).filter fun t => t ≠ "") = [] := by
          refine List.filter_eq_nil_iff.2 fun t ht => ?_
          obtain ⟨ts', hts', rfl⟩ := List.mem_map.1 ht
          rw [List.flatten_eq_nil_iff.1 hflat ts' hts']
          decide
        rw [hskipped, hflat, List.append_nil, String.intercalate_singleton]
      · have hleft : ((tss.map " ".intercalate).filter fun t => t ≠ "") ≠ [] := by
          intro e
          rw [e, String.intercalate_nil] at hrest
          have hall : ∀ t ∈ tss.flatten, t ≠ "" := by
            intro t ht
            obtain ⟨ts', hts', ht⟩ := List.mem_flatten.1 ht
            exact h ts' (List.mem_cons_of_mem _ hts') t ht
          exact hflat ((intercalate_eq_empty_iff hall).1 hrest.symm)
        rw [String.intercalate_cons_of_ne_nil hleft, hrest,
          String.intercalate_append_of_ne_nil hempty hflat]

/-- No blank stands at either end, and no two blanks stand side by side. -/
structure WellSpaced (cs : List Char) : Prop where
  front : cs.head? ≠ some ' '
  back : cs.getLast? ≠ some ' '
  inside : ¬ [' ', ' '] <:+: cs

/-- Class names are joined with one blank between them and none around them. -/
theorem wellSpaced_intercalate {ts : List String} (hne : ∀ t ∈ ts, t ≠ "")
    (hblank : ∀ t ∈ ts, ' ' ∉ t.toList) : WellSpaced (" ".intercalate ts).toList := by
  -- Where a blank stands, the pieces are cut, and none of them is empty.
  have hcut : ∀ before after : List Char, (" ".intercalate ts).toList = before ++ ' ' :: after →
      [] ∉ before.splitOn ' ' ∧ [] ∉ after.splitOn ' ' := by
    intro before after h
    have hts : ts ≠ [] := by
      rintro rfl
      simp at h
    have hpieces : (before ++ ' ' :: after).splitOn ' ' = ts.map String.toList := by
      rw [← h, String.toList_intercalate]
      refine List.splitOn_intercalate ' ' ?_ (mt List.map_eq_nil_iff.1 hts)
      intro l hl
      obtain ⟨t, ht, rfl⟩ := List.mem_map.1 hl
      exact hblank t ht
    have hnil : [] ∉ (before ++ ' ' :: after).splitOn ' ' := by
      rw [hpieces]
      intro hmem
      obtain ⟨t, ht, e⟩ := List.mem_map.1 hmem
      exact hne t ht (String.toList_eq_nil_iff.1 e)
    rw [List.splitOn_append_cons_self, List.mem_append, not_or] at hnil
    exact hnil
  constructor
  · intro h
    obtain ⟨after, h⟩ := List.head?_eq_some_iff.1 h
    exact (hcut [] after h).1 (by simp)
  · intro h
    obtain ⟨before, h⟩ := List.getLast?_eq_some_iff.1 h
    exact (hcut before [] h).2 (by simp)
  · rintro ⟨before, after, h⟩
    have hafter := (hcut before (' ' :: after) (by rw [← h]; simp)).2
    rw [List.splitOn_cons_eq_if_modifyHead] at hafter
    simp at hafter

/-! ## Class lists -/

/-- Joining a list of texts and one more that may be missing is joining those that are not empty. -/
theorem joinClassNames_concat (ts : List String) (t : Option String) :
    joinClassNames (ts.map some ++ [t]) =
      " ".intercalate ((ts ++ t.toList).filter fun t => t ≠ "") := by
  have hsome : ∀ ts : List String, (ts.map some).filterMap (fun n => n.filter fun t => t ≠ "") =
      ts.filter fun t => t ≠ "" := by
    intro ts
    rw [List.filterMap_map]
    exact congrFun List.filterMap_eq_filter ts
  have hlast : [t].filterMap (fun n => n.filter fun t => t ≠ "") = t.toList.filter fun t => t ≠ "" := by
    cases t with
    | none => rfl
    | some t => exact hsome [t]
  rw [joinClassNames, List.filterMap_append, hsome, hlast, List.filter_append]

namespace StyleElement

/-- The class names of the tree as texts. -/
def classTexts (e : StyleElement) : List String := e.fragments.map fun f => f.className.text

theorem ne_empty_of_mem_classTexts {e : StyleElement} {t : String} (h : t ∈ e.classTexts) :
    t ≠ "" := by
  obtain ⟨f, -, rfl⟩ := List.mem_map.1 h
  exact f.className.isClassText.1

theorem blank_notMem_of_mem_classTexts {e : StyleElement} {t : String} (h : t ∈ e.classTexts) :
    ' ' ∉ t.toList := by
  obtain ⟨f, -, rfl⟩ := List.mem_map.1 h
  intro hblank
  have hletter : (' ').isAlpha = true := f.className.isClassText.2 ' ' hblank
  cases hletter

theorem fragmentsOfAll_eq (es : List StyleElement) : fragmentsOfAll es = es.flatMap fragments := by
  induction es with
  | nil => rfl
  | cons e es ih => rw [fragmentsOfAll, ih, List.flatMap_cons]

theorem classTexts_node (cs : List StyleElement) (owned : Option Fragment) :
    (node cs owned).classTexts =
      (cs.map classTexts ++ owned.toList.map fun f => [f.className.text]).flatten := by
  rw [classTexts, fragments, fragmentsOfAll_eq, List.map_append, List.map_flatMap,
    List.flatten_append]
  cases owned <;> rfl

/-- The class list of an element joins the class names of its fragments, although it is joined from
class lists level by level. The induction is on the tree. -/
theorem classLists_eq :
    (∀ e : StyleElement, e.classList = " ".intercalate e.classTexts) ∧
    ∀ es : List StyleElement, classListsOf es = (es.map classTexts).map " ".intercalate := by
  refine StyleElement.induct (fun cs owned ih => ?_) rfl fun e es ihe ihes => ?_
  · have hne : ∀ ts ∈ cs.map classTexts ++ owned.toList.map fun f => [f.className.text],
        ∀ t ∈ ts, t ≠ "" := by
      intro ts hts t ht
      rcases List.mem_append.1 hts with hts | hts
      · obtain ⟨e, -, rfl⟩ := List.mem_map.1 hts
        exact ne_empty_of_mem_classTexts ht
      · obtain ⟨f, -, rfl⟩ := List.mem_map.1 hts
        rw [List.mem_singleton.1 ht]
        exact f.className.isClassText.1
    have hpieces : (cs.map classTexts ++ owned.toList.map fun f => [f.className.text]).map
        " ".intercalate = classListsOf cs ++ (owned.map fun f => f.className.text).toList := by
      rw [ih, List.map_append]
      cases owned <;> rfl
    rw [classTexts_node, ← intercalate_joined hne, hpieces, classList, joinClassNames_concat]
  · rw [classListsOf, ihe, ihes, List.map_cons, List.map_cons]

theorem classList_eq (e : StyleElement) : e.classList = " ".intercalate e.classTexts :=
  classLists_eq.1 e

theorem isEmpty_iff (e : StyleElement) : e.isEmpty = true ↔ e.fragments = [] := by
  have hlist : e.isEmpty = true ↔ e.classList = "" := String.isEmpty_iff
  rw [hlist, classList_eq, intercalate_eq_empty_iff fun _ => ne_empty_of_mem_classTexts, classTexts,
    List.map_eq_nil_iff]

end StyleElement

/-! ## Elements without fragments -/

namespace Registry

variable {σ : Type} [Sink σ]

/-- An element without fragments is inserted, and nothing happens. -/
theorem insert_of_fragments_eq_nil (r : Registry σ) {e : StyleElement} (he : e.fragments = []) :
    r.insert e = (.ok ⟨r.id, e⟩, r) := by
  cases hinsert : r.insert e with
  | mk result t =>
    cases result with
    | error err =>
      obtain ⟨before, f, after, s, u, names, hfs, -⟩ :=
        abandons_of_insertElement (insert_error hinsert)
      rw [he] at hfs
      simp at hfs
    | ok reg =>
      obtain ⟨rfl, hok⟩ := insert_ok hinsert
      have hacquire := acquireAll_of_insertElement hok
      rw [he] at hacquire
      cases hacquire
      rfl

/-- Releasing it does nothing either, but for a notice if the registration is of another registry.
-/
theorem release_of_fragments_eq_nil (r : Registry σ) {e : StyleElement} (he : e.fragments = [])
    (id : Nat) :
    (r.release ⟨id, e⟩).entries = r.entries ∧ (r.release ⟨id, e⟩).sink = r.sink := by
  have hremove : r.removeElement e = r := by
    rw [removeElement_eq, StyleElement.classNames, he]
    rfl
  unfold release
  split
  · rw [hremove]
    exact ⟨rfl, rfl⟩
  · exact ⟨rfl, rfl⟩

end Registry

namespace Compiler

open StyleElement

/-- An element that is built has the fragments of the elements among the inputs, in order, and then
the one that is compiled from the style objects among them. Its class list consists of the names of
all these fragments with single blanks between them, its rules are those of the fragments, and it is
empty exactly if there are none. An empty element can be inserted and released without any effect on
the entries and the sink of a registry. -/
theorem build_describes_tree (h : ContentHash) (calls : List CompilerCall)
    (inputs : List StyleInput) :
    let c := (ofHash h).after calls
    let e := (c.build inputs).1
    let names := e.fragments.map fun f => f.className.text
    e.fragments = (StyleInput.elements inputs).flatMap fragments ++
        (c.compile (StyleObject.mergeAll (StyleInput.objects inputs))).1.toList ∧
      e.classList = " ".intercalate names ∧
      (e.classList.split ' ').toList.map String.Slice.copy = (if names = [] then [""] else names) ∧
      WellSpaced e.classList.toList ∧
      e.flattenRules = e.fragments.flatMap Fragment.rules ∧
      (e.isEmpty = true ↔ e.fragments = []) ∧
      (e.isEmpty = true → ∀ {σ : Type} [Sink σ] (r : Registry σ) (id : Nat),
        r.insert e = (.ok ⟨r.id, e⟩, r) ∧
        (r.release ⟨id, e⟩).entries = r.entries ∧ (r.release ⟨id, e⟩).sink = r.sink) := by
  intro c e names
  have hblank : ∀ t ∈ names, ' ' ∉ t.toList := fun _ => blank_notMem_of_mem_classTexts
  have hclassList : e.classList = " ".intercalate names := classList_eq e
  refine ⟨?_, hclassList, ?_, ?_, flattenRules_eq.1 e, isEmpty_iff e, ?_⟩
  · show fragments (.node _ _) = _
    rw [fragments, fragmentsOfAll_eq]
    rfl
  · rw [hclassList]
    exact String.toList_split_intercalate hblank
  · rw [hclassList]
    exact wellSpaced_intercalate (fun _ => ne_empty_of_mem_classTexts) hblank
  · intro hempty σ _ r id
    have hnil : e.fragments = [] := (isEmpty_iff e).1 hempty
    exact ⟨r.insert_of_fragments_eq_nil hnil, r.release_of_fragments_eq_nil hnil id⟩

/-- Null values only, and an element without anything. -/
theorem build_describes_tree_empty :
    let o : StyleObject := .ofList [("color", .value .null), ("&:hover", .nested .empty)]
    let e := (new.build [.raw o, .element .empty]).1
    let r := Registry.new 0 ⟨.strict⟩ SheetSink.empty
    e.isEmpty = true ∧ r.insert e = (.ok ⟨0, e⟩, r) ∧ (r.release ⟨0, e⟩).entries = r.entries ∧
      (r.release ⟨0, e⟩).sink = r.sink := by
  intro o e r
  have hempty : e.isEmpty = true := by decide +kernel
  obtain ⟨-, -, -, -, -, -, hfree⟩ :=
    build_describes_tree .standard [] [.raw o, .element .empty]
  exact ⟨hempty, hfree hempty r 0⟩

end Compiler

end ScopedCss
