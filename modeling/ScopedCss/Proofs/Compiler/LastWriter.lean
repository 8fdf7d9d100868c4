import ScopedCss.Proofs.Compiler.History
import ScopedCss.Proofs.Style.Partition
import ScopedCss.Proofs.Style.Mentions

/-!
# The groups that are built

An element is built from the groups of the merged objects, and these groups can be told key by key
from what the objects say, without merging them: which entry was given last under a key decides
whether the key is a property or a block, and only what was given after the last value of the key
counts for the block. Where a key stands is decided by its first mention, of whatever kind that was.
-/

namespace ScopedCss

open Pairs

namespace StyleObject

/-- What declarations come to: each property with its last value, and without it if that is null. -/
def lastValues (ps : List (String × StyleValue)) : List (String × StyleValue) :=
  (firstMentions ps).filterMap fun name =>
    match (saidOf name ps).getLast? with
    | some v => if v = .null then none else some (name, v)
    | none => none

/-- The keys under which a value was given last, if it is not null, with that value. -/
def lastProperties (es : List (String × StyleEntry)) : List (String × StyleValue) :=
  (firstMentions es).filterMap fun key =>
    match (saidOf key es).getLast? with
    | some (.value v) => if v = .null then none else some (key, v)
    | _ => none

/-- The keys under which a block was given last, with what the blocks come to that were given after
the last value. -/
def lastBlocks (es : List (String × StyleEntry)) : List (String × List (String × StyleValue)) :=
  (firstMentions es).filterMap fun key =>
    match (saidOf key es).getLast? with
    | some (.nested _) =>
      some (key, lastValues ((StyleEntry.laterBlocks (saidOf key es)).flatMap OrderedMap.toList))
    | _ => none

/-- All entries of several objects, one after the other. -/
def mentions (objects : List StyleObject) : List (String × StyleEntry) :=
  objects.flatMap OrderedMap.toList

/-- A block from which the nulls are taken has under each name the value that was given last. -/
theorem toList_withoutNulls_ofList (ps : List (String × StyleValue)) :
    (Declarations.withoutNulls (OrderedMap.ofList ps)).toList = lastValues ps := by
  show (OrderedMap.ofList ps).toList.filter (fun p => !p.2.isNull) = _
  rw [OrderedMap.toList_ofList_eq, List.filter_filterMap, lastValues]
  refine List.filterMap_congr fun name _ => ?_
  cases (saidOf name ps).getLast? with
  | none => rfl
  | some v => cases v <;> rfl

/-- The properties of merged objects are the last values of their keys. -/
theorem properties_mergeAll (objects : List StyleObject) :
    properties (mergeAll objects).toList = lastProperties (mentions objects) := by
  rw [toList_mergeAll, properties, List.filterMap_filterMap]
  refine List.filterMap_congr fun key _ => ?_
  rw [StyleEntry.settled, mentions]
  cases (saidOf key (objects.flatMap OrderedMap.toList)).getLast? with
  | none => rfl
  | some e => cases e <;> rfl

/-- The blocks of merged objects hold what was given since the last value of their keys. -/
theorem blocks_mergeAll (objects : List StyleObject) :
    (blocks (mergeAll objects).toList).map (fun g => (g.1, g.2.toList)) =
      lastBlocks (mentions objects) := by
  rw [toList_mergeAll, blocks, List.filterMap_filterMap, List.map_filterMap]
  refine List.filterMap_congr fun key _ => ?_
  rw [StyleEntry.settled, mentions]
  cases (saidOf key (objects.flatMap OrderedMap.toList)).getLast? with
  | none => rfl
  | some e =>
    cases e with
    | value v => rfl
    | nested d =>
      rw [← toList_withoutNulls_ofList]
      rfl

theorem notMem_keys_mergeAll {objects : List StyleObject} {key : String}
    (h : ∀ o ∈ objects, key ∉ o.keys) : key ∉ (mergeAll objects).keys := by
  rw [mergeAll_eq_written, OrderedMap.keys_written, firstMentions, List.mem_eraseDups]
  intro hmem
  obtain ⟨e, he, rfl⟩ := List.mem_map.1 hmem
  obtain ⟨o, ho, he⟩ := List.mem_flatMap.1 he
  exact h o ho (List.mem_map_of_mem he)

/-- The groups of merged objects, told from what the objects say. -/
theorem groups_mergeAll {objects : List StyleObject} (h : ∀ o ∈ objects, "" ∉ o.keys) :
    (mergeAll objects).groups.toList.map (fun g => (g.1, g.2.toList)) =
      (("", lastProperties (mentions objects)) :: lastBlocks (mentions objects)).filter
        fun g => g.2 ≠ [] := by
  have hempty : "" ∉ (mergeAll objects).keys := notMem_keys_mergeAll h
  have hgroups := groups_eq fun d hd => hempty (OrderedMap.mem_keys_of_get? hd)
  have hbase : (OrderedMap.ofList (properties (mergeAll objects).toList)).toList =
      lastProperties (mentions objects) := by
    rw [OrderedMap.toList_ofList (nodup_keys_properties _), properties_mergeAll]
  have hkept : (fun g : String × Declarations => !g.2.isEmpty) =
      (fun g : String × List (String × StyleValue) => decide (g.2 ≠ [])) ∘
        fun g => (g.1, g.2.toList) := by
    funext g
    cases hd : g.2.toList <;> simp [OrderedMap.isEmpty, hd]
  rw [hgroups, hkept, ← List.filter_map, List.map_cons, blocks_mergeAll, hbase]

end StyleObject

namespace Compiler

open StyleObject

/-- If no style object has an entry under the empty key, an element is built from these groups: first
the base group with the keys under which a value was given last, then for each key under which a
block was given last, the properties of the blocks that were given after the last value of the key.
Each of them has its last value, nulls and groups that are left empty are left out, and everything
stands in the order of first mentions. Whatever else the compiler was called for does not matter. -/
theorem build_last_writer_wins (h : ContentHash) (calls : List CompilerCall)
    (inputs : List StyleInput) (hkeys : ∀ o ∈ StyleInput.objects inputs, "" ∉ o.keys) :
    let said := mentions (StyleInput.objects inputs)
    let groups := (mergeAll (StyleInput.objects inputs)).groups
    (((ofHash h).after calls).build inputs).1 =
        .node (StyleInput.elements inputs) (fragmentOf h groups.toList) ∧
      groups.toList.map (fun g => (g.1, g.2.toList)) =
        (("", lastProperties said) :: lastBlocks said).filter fun g => g.2 ≠ [] := by
  intro said groups
  obtain ⟨c, hbuild, -⟩ := (faithful_after h calls).build inputs
  constructor
  · rw [hbuild]
  · exact groups_mergeAll hkeys

/-- A property that is first mentioned as null, one that is null in the end, a key that is a block, a
value and a block again, and a key that is a value first and then a block in two objects. -/
theorem build_last_writer_wins_switched :
    let a : StyleObject := .ofList [("width", .value .null),
      ("&:hover", .nested (.ofList [("color", .text "blue"), ("top", .text "1")])),
      ("color", .value (.text "red")), ("&:focus", .value (.text "x"))]
    let b : StyleObject := .ofList [("&:hover", .value (.text "y")), ("width", .value (.text "2")),
      ("&:focus", .nested (.ofList [("left", .text "0"), ("top", .text "3")]))]
    let c : StyleObject := .ofList [("&:hover", .nested (.ofList [("top", .text "9")])),
      ("&:focus", .nested (.ofList [("left", .null)])), ("color", .value .null)]
    let inputs : List StyleInput := [.raw a, .element .empty, .raw b, .raw c]
    (∀ o ∈ StyleInput.objects inputs, "" ∉ o.keys) ∧
      ∃ groups : List (String × Declarations),
        ((ofHash .standard).build inputs).1 = .node [.empty] (fragmentOf .standard groups) ∧
        groups.map (fun g => (g.1, g.2.toList)) =
          [("", [("width", .text "2")]), ("&:hover", [("top", .text "9")]),
            ("&:focus", [("top", .text "3")])] := by
  intro a b c inputs
  have hkeys : ∀ o ∈ StyleInput.objects inputs, "" ∉ o.keys := by decide +kernel
  obtain ⟨hbuild, hgroups⟩ := build_last_writer_wins .standard [] inputs hkeys
  refine ⟨hkeys, _, hbuild, hgroups.trans ?_⟩
  decide +kernel

end Compiler

end ScopedCss
