import ScopedCss.Proofs.OrderedMap
import ScopedCss.Style.Group

/-!
# What the groups of a style object hold

Every declaration of a group stands in the style object, either as one of its own properties or in
the block under the key of the group, and it is not null. A group declares something for every name
that has a value of this kind.
-/

namespace ScopedCss

open OrderedMap

namespace StyleObject

/-! ## Where declarations come from -/

/-- The entries `es` have the declaration `p`, which is not null, for the group `key`. -/
def Declares (es : List (String × StyleEntry)) (key : String) (p : String × StyleValue) : Prop :=
  p.2 ≠ .null ∧ (key = "" ∧ (p.1, .value p.2) ∈ es ∨
    ∃ d : Declarations, (key, .nested d) ∈ es ∧ p ∈ d.toList)

theorem Declares.mono {es es' : List (String × StyleEntry)} {key : String} {p : String × StyleValue}
    (h : Declares es key p) (hsub : ∀ e ∈ es, e ∈ es') : Declares es' key p := by
  obtain ⟨hnull, ⟨hkey, he⟩ | ⟨d, he, hp⟩⟩ := h
  · exact ⟨hnull, .inl ⟨hkey, hsub _ he⟩⟩
  · exact ⟨hnull, .inr ⟨d, hsub _ he, hp⟩⟩

/-- What a list of entries declares is declared by the first entry or by the others. -/
theorem declares_cons {e : String × StyleEntry} {es : List (String × StyleEntry)} {key : String}
    {p : String × StyleValue} (h : Declares (e :: es) key p) :
    Declares [e] key p ∨ Declares es key p := by
  obtain ⟨hnull, ⟨hkey, he⟩ | ⟨d, he, hp⟩⟩ := h
  · rcases List.mem_cons.1 he with rfl | he
    · exact .inl ⟨hnull, .inl ⟨hkey, List.mem_singleton_self _⟩⟩
    · exact .inr ⟨hnull, .inl ⟨hkey, he⟩⟩
  · rcases List.mem_cons.1 he with rfl | he
    · exact .inl ⟨hnull, .inr ⟨d, List.mem_singleton_self _, hp⟩⟩
    · exact .inr ⟨hnull, .inr ⟨d, he, hp⟩⟩

theorem mem_withoutNulls {d : Declarations} {p : String × StyleValue}
    (h : p ∈ d.withoutNulls.toList) : p ∈ d.toList ∧ p.2 ≠ .null := by
  obtain ⟨hp, hnull⟩ := List.mem_filter.1 h
  refine ⟨hp, ?_⟩
  intro e
  rw [e] at hnull
  cases hnull

/-- The group `key` of `groups` has the declaration `p`. -/
def Holds (groups : OrderedMap String Declarations) (key : String) (p : String × StyleValue) : Prop :=
  ∃ d : Declarations, (key, d) ∈ groups.toList ∧ p ∈ d.toList

/-- After a group is written, it holds what was written, and the others hold what they did. -/
theorem holds_set {groups : OrderedMap String Declarations} {key key' : String} {d : Declarations}
    {p : String × StyleValue} (h : Holds (groups.set key d) key' p) :
    Holds groups key' p ∨ key' = key ∧ p ∈ d.toList := by
  obtain ⟨d', hd', hp⟩ := h
  rcases Pairs.mem_set hd' with e | hd'
  · cases e
    exact .inr ⟨rfl, hp⟩
  · exact .inl ⟨d', hd', hp⟩

/-- Going through one entry adds to the groups only what this entry declares. -/
theorem holds_addToGroups {groups : OrderedMap String Declarations} {key key' : String}
    {e : StyleEntry} {p : String × StyleValue} (h : Holds (addToGroups groups key e) key' p) :
    Holds groups key' p ∨ Declares [(key, e)] key' p := by
  -- A value that is not null is written to the base group, whatever it is.
  have hvalue : ∀ v : StyleValue, v ≠ .null →
      Holds (groups.update "" fun base => base.set key v) key' p →
      Holds groups key' p ∨ Declares [(key, .value v)] key' p := by
    rintro v hv ⟨d, hd, hp⟩
    rw [toList_update] at hd
    rcases Pairs.mem_update hd with hd | ⟨base, hbase, e⟩
    · exact .inl ⟨d, hd, hp⟩
    · cases e
      rcases Pairs.mem_set hp with rfl | hp
      · exact .inr ⟨hv, .inl ⟨rfl, List.mem_singleton_self _⟩⟩
      · exact .inl ⟨base, hbase, hp⟩
  cases e with
  | value v =>
    cases v with
    | null => exact .inl h
    | text s => exact hvalue _ (by simp) h
    | number x => exact hvalue _ (by simp) h
  | nested d =>
    have hblock : ∀ p ∈ (Declarations.withoutNulls d).toList, Declares [(key, .nested d)] key p := by
      intro p hp
      obtain ⟨hp, hnull⟩ := mem_withoutNulls hp
      exact ⟨hnull, .inr ⟨d, List.mem_singleton_self _, hp⟩⟩
    rw [addToGroups] at h
    cases hget : groups.get? key with
    | none =>
      rw [hget] at h
      rcases holds_set h with h | ⟨rfl, hp⟩
      · exact .inl h
      · exact .inr (hblock p hp)
    | some existing =>
      rw [hget] at h
      rcases holds_set h with h | ⟨rfl, hp⟩
      · exact .inl h
      · rcases mem_setAll hp with hp | hp
        · exact .inl ⟨existing, get?_eq_some_iff.1 hget, hp⟩
        · exact .inr (hblock p hp)

/-- The groups after the entries `es`, from `groups` on. -/
def groupsFrom (groups : OrderedMap String Declarations) (es : List (String × StyleEntry)) :
    OrderedMap String Declarations := es.foldl (fun gs e => addToGroups gs e.1 e.2) groups

/-- Nothing comes into the groups but what the entries declare. By induction over the entries. -/
theorem holds_groupsFrom {groups : OrderedMap String Declarations} {es : List (String × StyleEntry)}
    {key : String} {p : String × StyleValue} (h : Holds (groupsFrom groups es) key p) :
    Holds groups key p ∨ Declares es key p := by
  induction es generalizing groups with
  | nil => exact .inl h
  | cons e es ih =>
    rcases ih h with h | h
    · rcases holds_addToGroups h with h | h
      · exact .inl h
      · refine .inr (h.mono ?_)
        intro e' he'
        rw [List.mem_singleton.1 he']
        exact List.mem_cons_self
    · exact .inr (h.mono fun _ => List.mem_cons_of_mem e)

/-- No group is empty, and what is in a group stands in the object. -/
theorem mem_groups {o : StyleObject} {g : String × Declarations} (h : g ∈ o.groups.toList) :
    g.2.toList ≠ [] ∧ ∀ p ∈ g.2.toList, Declares o.toList g.1 p := by
  obtain ⟨hg, hempty⟩ := List.mem_filter.1 h
  constructor
  · intro e
    simp [OrderedMap.isEmpty, e] at hempty
  · intro p hp
    have hholds : Holds (groupsFrom noGroups o.toList) g.1 p := ⟨g.2, hg, hp⟩
    rcases holds_groupsFrom hholds with ⟨d, hd, hp⟩ | h
    · -- Before any entry is seen, there is the base group only, and it is empty.
      obtain ⟨-, rfl⟩ := Prod.mk.inj (List.mem_singleton.1 hd)
      cases hp
    · exact h

/-! ## Names that are kept -/

/-- The group `key` of `groups` declares something for the property `name`. -/
def Names (groups : OrderedMap String Declarations) (key name : String) : Prop :=
  ∃ d : Declarations, groups.get? key = some d ∧ name ∈ d.keys

/-- A group that is written has the names written to it, and the other groups have theirs. -/
theorem names_set {groups : OrderedMap String Declarations} {key key' name : String}
    {d : Declarations} : Names (groups.set key' d) key name ↔
      key = key' ∧ name ∈ d.keys ∨ key ≠ key' ∧ Names groups key name := by
  unfold Names
  rw [get?_set]
  by_cases hkey : key = key'
  · simp [hkey]
  · simp [hkey]

/-- An update under which no name is lost loses none in any group. -/
theorem names_update {groups : OrderedMap String Declarations} {key key' name : String}
    {f : Declarations → Declarations} (hf : ∀ d : Declarations, name ∈ d.keys → name ∈ (f d).keys)
    (h : Names groups key name) : Names (groups.update key' f) key name := by
  obtain ⟨d, hget, hname⟩ := h
  unfold Names
  rw [get?_update, hget]
  split
  · exact ⟨f d, rfl, hf d hname⟩
  · exact ⟨d, rfl, hname⟩

/-- A later entry replaces values and no names. -/
theorem Names.addToGroups {groups : OrderedMap String Declarations} {key name : String}
    (h : Names groups key name) (key' : String) (e : StyleEntry) :
    Names (addToGroups groups key' e) key name := by
  have hvalue : ∀ v : StyleValue, Names (groups.update "" fun base => base.set key' v) key name :=
    fun v => names_update (fun d hname => mem_keys_set.2 (.inl hname)) h
  cases e with
  | value v =>
    cases v with
    | null => exact h
    | text s => exact hvalue _
    | number x => exact hvalue _
  | nested d =>
    rw [StyleObject.addToGroups]
    by_cases hkey : key = key'
    · obtain ⟨existing, hget, hname⟩ := h
      rw [← hkey, hget]
      exact names_set.2 (.inl ⟨rfl, mem_keys_setAll.2 (.inl hname)⟩)
    · split
      · exact names_set.2 (.inr ⟨hkey, h⟩)
      · exact names_set.2 (.inr ⟨hkey, h⟩)

/-- There is a base group, whatever is added. -/
theorem base_addToGroups {groups : OrderedMap String Declarations} (h : "" ∈ groups.keys)
    (key : String) (e : StyleEntry) : "" ∈ (addToGroups groups key e).keys := by
  have hupdate : ∀ f : Declarations → Declarations, "" ∈ (groups.update "" f).keys := by
    intro f
    rw [OrderedMap.keys, toList_update, Pairs.keys_update]
    exact h
  cases e with
  | value v =>
    cases v with
    | null => exact h
    | text s => exact hupdate _
    | number x => exact hupdate _
  | nested d =>
    rw [addToGroups]
    split
    · exact mem_keys_set.2 (.inl h)
    · exact mem_keys_set.2 (.inl h)

theorem mem_keys_withoutNulls {d : Declarations} {p : String × StyleValue} (hp : p ∈ d.toList)
    (hnull : p.2 ≠ .null) : p.1 ∈ (Declarations.withoutNulls d).keys := by
  refine List.mem_map_of_mem (List.mem_filter.2 ⟨hp, ?_⟩)
  cases hv : p.2 with
  | null => exact absurd hv hnull
  | text s => rfl
  | number x => rfl

/-- The group of an entry gets the names for which the entry has a value. -/
theorem names_addToGroups_of_declares {groups : OrderedMap String Declarations}
    (hbase : "" ∈ groups.keys) {key key' : String} {e : StyleEntry} {p : String × StyleValue}
    (h : Declares [(key', e)] key p) : Names (addToGroups groups key' e) key p.1 := by
  obtain ⟨hnull, ⟨rfl, hmem⟩ | ⟨d, hmem, hp⟩⟩ := h
  · cases List.mem_singleton.1 hmem
    have hadd : addToGroups groups p.1 (.value p.2) =
        groups.update "" fun base => base.set p.1 p.2 := by
      cases hv : p.2 with
      | null => exact absurd hv hnull
      | text s => rfl
      | number x => rfl
    obtain ⟨base, hget⟩ := Option.ne_none_iff_exists'.1 fun e => get?_eq_none_iff.1 e hbase
    refine ⟨base.set p.1 p.2, ?_, mem_keys_set.2 (.inr rfl)⟩
    rw [hadd, get?_update, if_pos rfl, hget, Option.map_some]
  · cases List.mem_singleton.1 hmem
    have hname : p.1 ∈ (Declarations.withoutNulls d).keys := mem_keys_withoutNulls hp hnull
    rw [addToGroups]
    split
    · exact names_set.2 (.inl ⟨rfl, mem_keys_setAll.2 (.inr hname)⟩)
    · exact names_set.2 (.inl ⟨rfl, hname⟩)

/-- Everything the entries declare has its name in its group. The base group must be there to begin
with, since the properties are added to it where it stands. -/
theorem names_groupsFrom {groups : OrderedMap String Declarations} (hbase : "" ∈ groups.keys)
    {es : List (String × StyleEntry)} {key name : String}
    (h : Names groups key name ∨ ∃ v, Declares es key (name, v)) :
    Names (groupsFrom groups es) key name := by
  induction es generalizing groups with
  | nil =>
    rcases h with h | ⟨v, -, ⟨-, hmem⟩ | ⟨d, hmem, -⟩⟩
    · exact h
    · cases hmem
    · cases hmem
  | cons e es ih =>
    refine ih (base_addToGroups hbase e.1 e.2) ?_
    rcases h with h | ⟨v, h⟩
    · exact .inl (h.addToGroups e.1 e.2)
    · rcases declares_cons h with h | h
      · exact .inl (names_addToGroups_of_declares hbase h)
      · exact .inr ⟨v, h⟩

/-- The properties that the groups declare something for are those that have a value somewhere in the
object which is not null. -/
theorem mem_names_groups_iff {o : StyleObject} {key name : String} :
    (∃ d : Declarations, (key, d) ∈ o.groups.toList ∧ name ∈ d.keys) ↔
      ∃ v, Declares o.toList key (name, v) := by
  constructor
  · rintro ⟨d, hd, hname⟩
    obtain ⟨p, hp, rfl⟩ := List.mem_map.1 hname
    exact ⟨p.2, (mem_groups hd).2 p hp⟩
  · intro h
    have hbase : "" ∈ noGroups.keys := mem_keys_set.2 (.inr rfl)
    obtain ⟨d, hget, hname⟩ : Names (groupsFrom noGroups o.toList) key name :=
      names_groupsFrom hbase (.inr h)
    refine ⟨d, List.mem_filter.2 ⟨get?_eq_some_iff.1 hget, ?_⟩, hname⟩
    obtain ⟨p, hp, -⟩ := List.mem_map.1 hname
    show (!d.toList.isEmpty) = true
    rw [List.isEmpty_eq_false_iff_exists_mem.2 ⟨p, hp⟩]
    rfl

end StyleObject

end ScopedCss
