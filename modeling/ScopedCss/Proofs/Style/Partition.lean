import Mathlib.Data.List.Induction
import ScopedCss.Proofs.Style.Groups

/-!
# Groups read off the entries

The groups of a style object can be told from its entries without going through them one after the other.
The blocks under keys of their own are groups, in the order of the entries. The base group is one block to
which the properties are written, each at its place, and a block under the empty key at the place of that
block, so that either of them can overwrite the other. What is null is left out of all of them, and a
group without declarations is no group.
-/

namespace ScopedCss

open OrderedMap

namespace StyleObject

/-! ## Properties and blocks -/

/-- The properties among the entries, those that are null left out. -/
def properties (es : List (String × StyleEntry)) : List (String × StyleValue) :=
  es.filterMap fun
    | (key, .value v) => if v = .null then none else some (key, v)
    | (_, .nested _) => none

/-- The blocks among the entries, without their null values. -/
def blocks (es : List (String × StyleEntry)) : List (String × Declarations) :=
  es.filterMap fun
    | (_, .value _) => none
    | (key, .nested d) => some (key, d.withoutNulls)

/-- What is written to the base group, in this order: a property at its place, and the declarations of a
block under the empty key at the place of the block. -/
def baseDeclarations (es : List (String × StyleEntry)) : List (String × StyleValue) :=
  es.flatMap fun
    | (key, .value v) => if v = .null then [] else [(key, v)]
    | (key, .nested d) => if key = "" then d.withoutNulls.toList else []

/-- The blocks under keys that are not empty. -/
def namedBlocks (es : List (String × StyleEntry)) : List (String × Declarations) :=
  (blocks es).filter fun g => g.1 ≠ ""

/-- The properties stand in the order of their keys among the entries. -/
theorem keys_properties_sublist (es : List (String × StyleEntry)) :
    (Pairs.keys (properties es)).Sublist (Pairs.keys es) := by
  apply Pairs.keys_filterMap_sublist
  rintro ⟨key, e⟩ q hq
  cases e with
  | value v =>
    simp only at hq
    split at hq
    · cases hq
    · cases hq
      rfl
  | nested d => cases hq

/-- So do the blocks under keys of their own. -/
theorem keys_namedBlocks_sublist (es : List (String × StyleEntry)) :
    (Pairs.keys (namedBlocks es)).Sublist (Pairs.keys es) := by
  refine (List.filter_sublist.map Prod.fst).trans (Pairs.keys_filterMap_sublist ?_ es)
  rintro ⟨key, e⟩ q hq
  cases e with
  | value v => cases hq
  | nested d =>
    cases hq
    rfl

/-- A block under a key of its own is one of the nested entries, without its null values. -/
theorem mem_namedBlocks {es : List (String × StyleEntry)} {key : String} {g : Declarations} :
    (key, g) ∈ namedBlocks es ↔
      key ≠ "" ∧ ∃ d : Declarations, (key, .nested d) ∈ es ∧ g = d.withoutNulls := by
  rw [namedBlocks, List.mem_filter, decide_eq_true_iff, and_comm, blocks, List.mem_filterMap]
  refine and_congr_right fun _ => ?_
  constructor
  · rintro ⟨⟨key', e⟩, he, hg⟩
    cases e with
    | value v => cases hg
    | nested d =>
      cases hg
      exact ⟨d, he, rfl⟩
  · rintro ⟨d, he, rfl⟩
    exact ⟨(key, .nested d), he, rfl⟩

theorem empty_notMem_keys_namedBlocks (es : List (String × StyleEntry)) :
    "" ∉ Pairs.keys (namedBlocks es) := by
  intro hmem
  obtain ⟨⟨key, g⟩, hg, rfl⟩ := List.mem_map.1 hmem
  exact (mem_namedBlocks.1 hg).1 rfl

/-! ## One entry after the other -/

/-- The groups are the base group with what is written to it, and the named blocks. -/
def Partitions (groups : OrderedMap String Declarations) (es : List (String × StyleEntry)) : Prop :=
  groups.toList = ("", .ofList (baseDeclarations es)) :: namedBlocks es

namespace Partitions

variable {groups : OrderedMap String Declarations} {es : List (String × StyleEntry)} {key : String}

theorem update_base (h : Partitions groups es) (f : Declarations → Declarations) :
    (groups.update "" f).toList = ("", f (.ofList (baseDeclarations es))) :: namedBlocks es := by
  rw [toList_update, h, Pairs.update_cons, if_pos rfl,
    Pairs.update_of_notMem f (empty_notMem_keys_namedBlocks es)]

theorem get?_base (h : Partitions groups es) :
    groups.get? "" = some (.ofList (baseDeclarations es)) := by
  rw [get?_eq_some_iff, h]
  exact List.mem_cons_self

theorem set_base (h : Partitions groups es) (d : Declarations) :
    (groups.set "" d).toList = ("", d) :: namedBlocks es := by
  show Pairs.set "" d groups.toList = _
  rw [h, Pairs.set, if_pos rfl]

theorem key_notMem (h : Partitions groups es) (hne : key ≠ "") (hnew : key ∉ Pairs.keys es) :
    key ∉ groups.keys := by
  intro hmem
  rw [OrderedMap.keys, h] at hmem
  rcases List.mem_cons.1 hmem with e | hmem
  · exact hne e
  · exact hnew ((keys_namedBlocks_sublist es).subset hmem)

/-- One more entry adds to what is written to the base group, or to the named blocks. -/
theorem concat_iff {groups' : OrderedMap String Declarations} {e : String × StyleEntry} :
    Partitions groups' (es ++ [e]) ↔ groups'.toList =
      ("", (ofList (baseDeclarations es)).setAll (baseDeclarations [e])) ::
        (namedBlocks es ++ namedBlocks [e]) := by
  have hbase : baseDeclarations (es ++ [e]) = baseDeclarations es ++ baseDeclarations [e] :=
    List.flatMap_append
  have hblocks : namedBlocks (es ++ [e]) = namedBlocks es ++ namedBlocks [e] := by
    rw [namedBlocks, blocks, List.filterMap_append, List.filter_append]
    rfl
  rw [Partitions, hbase, hblocks, ofList_append]

/-- One more entry changes the groups as it changes the lists they are read off. The kind of the
entry and whether its key is empty make the cases. -/
theorem addToGroups (h : Partitions groups es) (hnew : key ∉ Pairs.keys es) (e : StyleEntry) :
    Partitions (addToGroups groups key e) (es ++ [(key, e)]) := by
  rw [concat_iff]
  cases e with
  | value v =>
    have hblocks : namedBlocks [(key, .value v)] = [] := rfl
    rw [hblocks, List.append_nil]
    by_cases hv : v = .null
    · have hwritten : baseDeclarations [(key, .value v)] = [] := by simp [baseDeclarations, hv]
      rw [hwritten, hv]
      exact h
    · have hwritten : baseDeclarations [(key, .value v)] = [(key, v)] := by
        simp [baseDeclarations, hv]
      have hadd : StyleObject.addToGroups groups key (.value v) =
          groups.update "" fun base => base.set key v := by
        cases v with
        | null => exact absurd rfl hv
        | text s => rfl
        | number x => rfl
      rw [hwritten, hadd]
      exact h.update_base _
  | nested d =>
    rw [StyleObject.addToGroups]
    by_cases hkey : key = ""
    · subst hkey
      have hwritten : baseDeclarations [("", .nested d)] = (Declarations.withoutNulls d).toList :=
        List.append_nil _
      have hblocks : namedBlocks [("", .nested d)] = [] := rfl
      rw [hwritten, hblocks, List.append_nil, h.get?_base]
      exact h.set_base _
    · have hwritten : baseDeclarations [(key, .nested d)] = [] := by simp [baseDeclarations, hkey]
      have hblocks : namedBlocks [(key, .nested d)] = [(key, Declarations.withoutNulls d)] :=
        List.filter_cons_of_pos (decide_eq_true hkey)
      have hmem : key ∉ groups.keys := h.key_notMem hkey hnew
      rw [hwritten, hblocks, get?_eq_none_iff.2 hmem]
      show (groups.set key _).toList = _
      rw [toList_set_of_notMem hmem, h]
      rfl

end Partitions

/-- The groups are read off the entries, by induction from the end of the list: an entry is added to
the groups of those before it. -/
theorem partitions_groupsFrom {es : List (String × StyleEntry)} (hn : (Pairs.keys es).Nodup) :
    Partitions (groupsFrom noGroups es) es := by
  induction es using List.reverseRecOn with
  | nil => rfl
  | append_singleton es e ih =>
    have hkeys : Pairs.keys (es ++ [e]) = Pairs.keys es ++ [e.1] := List.map_append
    rw [hkeys] at hn
    obtain ⟨hes, -, hnew⟩ := List.nodup_append.1 hn
    have hstep : groupsFrom noGroups (es ++ [e]) = addToGroups (groupsFrom noGroups es) e.1 e.2 :=
      List.foldl_append
    rw [hstep]
    refine (ih hes).addToGroups ?_ e.2
    intro hmem
    exact hnew e.1 hmem e.1 (List.mem_singleton_self _) rfl

/-! ## All entries -/

theorem toList_groups (o : StyleObject) : o.groups.toList =
    (("", .ofList (baseDeclarations o.toList)) :: namedBlocks o.toList).filter
      fun g => !g.2.isEmpty := by
  rw [← partitions_groupsFrom o.nodup_keys]
  rfl

/-- Without a block under the empty key, the base group is no more than the properties, and all blocks
have names. -/
theorem groups_eq {o : StyleObject} (h : ∀ d, o.get? "" ≠ some (.nested d)) :
    o.groups.toList =
      (("", .ofList (properties o.toList)) :: blocks o.toList).filter fun g => !g.2.isEmpty := by
  have hnested : ∀ d, ("", .nested d) ∉ o.toList := fun d hd => h d (get?_eq_some_iff.2 hd)
  have hbase : baseDeclarations o.toList = properties o.toList := by
    rw [properties, List.filterMap_eq_flatMap_toList, baseDeclarations]
    refine List.flatMap_congr fun e he => ?_
    obtain ⟨key, v | d⟩ := e
    · by_cases hv : v = .null
      · simp [hv]
      · simp [hv]
    · have hkey : key ≠ "" := fun e => hnested d (e ▸ he)
      simp [hkey]
  have hblocks : namedBlocks o.toList = blocks o.toList := by
    refine List.filter_eq_self.2 fun g hg => decide_eq_true ?_
    rintro hkey
    obtain ⟨⟨key, e⟩, he, hg⟩ := List.mem_filterMap.1 hg
    cases e with
    | value v => cases hg
    | nested d =>
      cases hg
      exact hnested d (hkey ▸ he)
  rw [toList_groups, hbase, hblocks]

theorem nodup_keys_properties (o : StyleObject) : (Pairs.keys (properties o.toList)).Nodup :=
  (keys_properties_sublist o.toList).nodup o.nodup_keys

/-- The groups of a style object have distinct keys, and something in each of them, of which nothing is
null. Under the empty key there is one block, to which the properties are written, and the declarations of
a block under the empty key at the place of that block. Under any other key there is the block that stands
under it in the object, without its null values. The base group comes first, if there is one, and the others
have the order in which their keys stand in the object. -/
theorem groups_partition_entries (o : StyleObject) :
    let base : Declarations := .ofList (baseDeclarations o.toList)
    (∀ (key : String) (g : Declarations), (key, g) ∈ o.groups.toList ↔ g.toList ≠ [] ∧
      (key = "" ∧ g = base ∨
        key ≠ "" ∧ ∃ d, o.get? key = some (.nested d) ∧ g = Declarations.withoutNulls d)) ∧
    (Pairs.keys o.groups.toList).Nodup ∧
    (∀ g ∈ o.groups.toList, ∀ p ∈ g.2.toList, p.2 ≠ .null) ∧
    ∃ named : List String, (o.groups.keys = named ∨ o.groups.keys = "" :: named) ∧ "" ∉ named ∧
      named.Sublist o.keys := by
  intro base
  refine ⟨?_, o.groups.nodup_keys, ?_, ?_⟩
  · intro key g
    have hnonempty : (!g.isEmpty) = true ↔ g.toList ≠ [] := by
      simp [OrderedMap.isEmpty]
    rw [toList_groups, List.mem_filter, hnonempty, and_comm, List.mem_cons, mem_namedBlocks,
      Prod.mk.injEq]
    simp only [get?_eq_some_iff]
    rfl
  · intro g hg p hp
    exact ((mem_groups hg).2 p hp).1
  · let kept := (namedBlocks o.toList).filter fun g => !g.2.isEmpty
    have hsub : (Pairs.keys kept).Sublist (Pairs.keys (namedBlocks o.toList)) :=
      List.filter_sublist.map Prod.fst
    refine ⟨Pairs.keys kept, ?_, ?_, hsub.trans (keys_namedBlocks_sublist o.toList)⟩
    · rw [OrderedMap.keys, toList_groups, List.filter_cons]
      split
      · exact .inr rfl
      · exact .inl rfl
    · intro hmem
      exact empty_notMem_keys_namedBlocks o.toList (hsub.subset hmem)

/-- A property that the block under the empty key overwrites, one that overwrites it, and a block with
nothing in it but null. -/
theorem groups_partition_entries_collisions :
    let o : StyleObject := .ofList [("color", .value (.text "red")),
      ("&:hover", .nested (.ofList [("top", .null)])),
      ("", .nested (.ofList [("width", .null), ("top", .text "1"), ("color", .text "blue")])),
      ("&:focus", .nested (.ofList [("left", .text "0"), ("top", .null)])),
      ("top", .value (.text "2")), ("left", .value .null)]
    let base : Declarations := .ofList [("color", .text "blue"), ("top", .text "2")]
    let focus : Declarations := .ofList [("left", .text "0")]
    ("", base) ∈ o.groups.toList ∧ ("&:focus", focus) ∈ o.groups.toList ∧
      (∀ g : Declarations, ("&:hover", g) ∉ o.groups.toList) ∧ ∀ p ∈ focus.toList, p.2 ≠ .null := by
  intro o base focus
  obtain ⟨hmem, -, hnull, -⟩ := groups_partition_entries o
  have hfocus : ("&:focus", focus) ∈ o.groups.toList := by
    refine (hmem _ _).2 ⟨by decide, .inr ⟨by decide, ?_⟩⟩
    exact ⟨.ofList [("left", .text "0"), ("top", .null)], by decide +kernel, by decide +kernel⟩
  refine ⟨(hmem _ _).2 ⟨by decide, .inl ⟨rfl, by decide +kernel⟩⟩, hfocus, ?_, hnull _ hfocus⟩
  intro g hg
  obtain ⟨hne, ⟨hkey, -⟩ | ⟨-, d, hd, rfl⟩⟩ := (hmem _ _).1 hg
  · exact absurd hkey (by decide)
  · have hhover : o.get? "&:hover" = some (.nested (.ofList [("top", .null)])) := by decide +kernel
    rw [hhover] at hd
    cases hd
    exact hne (by decide +kernel)

end StyleObject

end ScopedCss
