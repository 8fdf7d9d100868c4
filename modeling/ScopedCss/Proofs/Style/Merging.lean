import ScopedCss.Proofs.Style.Mentions

/-!
# Merging in parts

Blocks and style objects are merged in the same way, one level apart: the pairs of one map are laid, in
order, over another map, and under each key the new value sees the old one (`OrderedMap.layer`). The
keys come out the same however the maps are put in brackets, so merging is associative exactly if it is
at every key. For blocks that is always so. For objects there is one exception, a key under which a block
is switched to a value and back to a block: laid over one another from left to right, the value has
removed the first block before the last one comes, but if the last two objects are merged first, the
value is gone when they are laid over the first block.
-/

namespace ScopedCss

/-! ## Layers -/

namespace OrderedMap

variable {κ α : Type} [DecidableEq κ]

/-- A map is determined by its keys, in order, and by what stands under them. -/
theorem ext_get? {m n : OrderedMap κ α} (hkeys : m.keys = n.keys)
    (hget : ∀ k, m.get? k = n.get? k) : m = n := by
  apply ext_toList
  rw [toList_eq_filterMap m, toList_eq_filterMap n, hkeys]
  refine List.filterMap_congr fun k _ => ?_
  rw [hget]

/-- Writes pairs one after the other, each as what `f` makes of it and of what stands under its key. -/
def layerPairs (f : α → Option α → α) (m : OrderedMap κ α) (ps : List (κ × α)) : OrderedMap κ α :=
  ps.foldl (fun m p => m.set p.1 (f p.2 (m.get? p.1))) m

/-- Lays the pairs of `n` over `m`. -/
def layer (f : α → Option α → α) (m n : OrderedMap κ α) : OrderedMap κ α := m.layerPairs f n.toList

variable {f : α → Option α → α} {m n : OrderedMap κ α}

/-- The keys of the lower map stay in front, in their order, and those that are new come behind. -/
theorem keys_layerPairs {ps : List (κ × α)} (hn : (Pairs.keys ps).Nodup) :
    (m.layerPairs f ps).keys = m.keys ++ (Pairs.keys ps).filter fun k => k ∉ m.keys := by
  induction ps generalizing m with
  | nil => exact (List.append_nil _).symm
  | cons p ps ih =>
    obtain ⟨hp, hn⟩ := List.nodup_cons.1 hn
    have hkeys : Pairs.keys (p :: ps) = p.1 :: Pairs.keys ps := rfl
    rw [layerPairs, List.foldl_cons, ← layerPairs, ih hn, hkeys]
    by_cases hmem : p.1 ∈ m.keys
    · rw [keys_set_of_mem hmem, List.filter_cons_of_neg (by simpa using hmem)]
    · -- The new key is not among those that come later.
      have hlater : (Pairs.keys ps).filter (fun k => k ∉ m.keys ++ [p.1]) =
          (Pairs.keys ps).filter fun k => k ∉ m.keys := by
        refine List.filter_congr fun k hk => ?_
        have hne : k ≠ p.1 := fun e => hp (e ▸ hk)
        simp [hne]
      rw [keys_set_of_notMem hmem, hlater, List.filter_cons_of_pos (by simpa using hmem),
        List.append_assoc]
      rfl

/-- Under each key the new value sees what was there before the laying began, since no key is laid
twice. -/
theorem get?_layerPairs {ps : List (κ × α)} (hn : (Pairs.keys ps).Nodup) (k : κ) :
    (m.layerPairs f ps).get? k =
      (Pairs.get? k ps).elim (m.get? k) fun v => some (f v (m.get? k)) := by
  induction ps generalizing m with
  | nil => rfl
  | cons p ps ih =>
    obtain ⟨hp, hn⟩ := List.nodup_cons.1 hn
    rw [layerPairs, List.foldl_cons, ← layerPairs, ih hn, get?_set, Pairs.get?]
    by_cases hk : p.1 = k
    · have hlater : Pairs.get? k ps = none := Pairs.get?_eq_none_iff.2 (hk ▸ hp)
      rw [if_pos hk, if_pos hk.symm, hlater, hk]
      rfl
    · rw [if_neg hk, if_neg fun e => hk e.symm]

theorem keys_layer : (m.layer f n).keys = m.keys ++ n.keys.filter fun k => k ∉ m.keys :=
  keys_layerPairs n.nodup_keys

theorem get?_layer (k : κ) :
    (m.layer f n).get? k = (n.get? k).elim (m.get? k) fun v => some (f v (m.get? k)) :=
  get?_layerPairs n.nodup_keys k

theorem mem_keys_layer {k : κ} : k ∈ (m.layer f n).keys ↔ k ∈ m.keys ∨ k ∈ n.keys := by
  by_cases hk : k ∈ m.keys <;> simp [keys_layer, hk]

/-- The keys come out in the same order whichever two maps are laid first. -/
theorem keys_layer_assoc (a b c : OrderedMap κ α) :
    ((a.layer f b).layer f c).keys = (a.layer f (b.layer f c)).keys := by
  have hlast : c.keys.filter (fun k => k ∉ (a.layer f b).keys) =
      (c.keys.filter fun k => k ∉ b.keys).filter fun k => k ∉ a.keys := by
    rw [List.filter_filter]
    refine List.filter_congr fun k _ => ?_
    simp [mem_keys_layer]
  calc ((a.layer f b).layer f c).keys
      = (a.layer f b).keys ++ c.keys.filter fun k => k ∉ (a.layer f b).keys := keys_layer
    _ = a.keys ++ (b.keys ++ c.keys.filter fun k => k ∉ b.keys).filter fun k => k ∉ a.keys := by
      rw [hlast, keys_layer, List.filter_append, List.append_assoc]
    _ = (a.layer f (b.layer f c)).keys := by rw [keys_layer, keys_layer]

/-- Layers can be put in brackets in either way exactly if this is so at every key that the last two
have in common. -/
theorem layer_assoc_iff (hf : ∀ v, f v none = v) {a b c : OrderedMap κ α} :
    a.layer f (b.layer f c) = (a.layer f b).layer f c ↔
      ∀ k v w, b.get? k = some v → c.get? k = some w →
        f (f w (some v)) (a.get? k) = f w (some (f v (a.get? k))) := by
  constructor
  · intro h k v w hv hw
    have hget := congrArg (get? · k) h
    simp only [get?_layer, hv, hw, Option.elim_some, Option.some.injEq] at hget
    exact hget
  · intro h
    refine ext_get? (keys_layer_assoc a b c).symm fun k => ?_
    simp only [get?_layer]
    cases hw : c.get? k with
    | none => rfl
    | some w =>
      cases hv : b.get? k with
      | none => simp only [Option.elim_none, Option.elim_some, hf]
      | some v => simp only [Option.elim_some, h k v w hv hw]

/-- Over nothing a map is itself, if values take nothing from what is not there. -/
theorem empty_layer (hf : ∀ v, f v none = v) (m : OrderedMap κ α) : empty.layer f m = m := by
  refine ext_get? ?_ fun k => ?_
  · rw [keys_layer]
    exact List.filter_eq_self.2 fun k _ => by simp [empty, keys]
  · rw [get?_layer, get?_empty]
    cases m.get? k with
    | none => rfl
    | some v => exact congrArg some (hf v)

theorem layer_self (hf : ∀ v, f v (some v) = v) (m : OrderedMap κ α) : m.layer f m = m := by
  refine ext_get? ?_ fun k => ?_
  · rw [keys_layer, List.filter_eq_nil_iff.2 fun k hk => by simpa using hk, List.append_nil]
  · rw [get?_layer]
    cases m.get? k with
    | none => rfl
    | some v => exact congrArg some (hf v)

/-! ## Blocks -/

theorem merge_eq_layer (d e : OrderedMap κ α) : d.merge e = d.layer (fun v _ => v) e := rfl

theorem merge_assoc (d e g : OrderedMap κ α) : (d.merge e).merge g = d.merge (e.merge g) := by
  simp only [merge_eq_layer]
  exact ((layer_assoc_iff fun _ => rfl).2 fun _ _ _ _ _ => rfl).symm

theorem merge_self (d : OrderedMap κ α) : d.merge d = d := by
  rw [merge_eq_layer]
  exact layer_self (fun _ => rfl) d

end OrderedMap

/-! ## Entries -/

namespace StyleEntry

theorem over_none (e : StyleEntry) : e.over none = e := by
  cases e <;> rfl

theorem over_self (e : StyleEntry) : e.over (some e) = e := by
  cases e with
  | value v => rfl
  | nested d => exact congrArg nested (OrderedMap.merge_self d)

/-- Of three entries under one key, the last two can be put together first, unless the middle one is a
value between two blocks, of which the first one can be seen under the last. -/
theorem over_assoc_iff (old : Option StyleEntry) (e new : StyleEntry) :
    (new.over (some e)).over old = new.over (some (e.over old)) ↔
      ∀ d v d', old = some (.nested d) → e = .value v → new = .nested d' → d.merge d' = d' := by
  match new, e, old with
  | .value w, _, _ => simp [StyleEntry.over]
  | .nested d', .value v, none => simp [StyleEntry.over]
  | .nested d', .value v, some (.value _) => simp [StyleEntry.over]
  | .nested d', .value v, some (.nested d) => simp [StyleEntry.over]
  | .nested d', .nested e, none => simp [StyleEntry.over]
  | .nested d', .nested e, some (.value _) => simp [StyleEntry.over]
  | .nested d', .nested e, some (.nested d) => simp [StyleEntry.over, OrderedMap.merge_assoc]

end StyleEntry

/-! ## Style objects -/

namespace StyleObject

theorem mergeWith_eq_layer (a b : StyleObject) :
    a.mergeWith b = OrderedMap.layer StyleEntry.over a b := rfl

theorem empty_mergeWith (a : StyleObject) : mergeWith OrderedMap.empty a = a :=
  OrderedMap.empty_layer StyleEntry.over_none a

theorem mergeWith_self (a : StyleObject) : a.mergeWith a = a :=
  OrderedMap.layer_self StyleEntry.over_self a

theorem mergeAll_cons (o : StyleObject) (objects : List StyleObject) :
    mergeAll (o :: objects) = objects.foldl mergeWith o := by
  rw [mergeAll, List.foldl_cons, empty_mergeWith]

/-- The first objects can always be merged beforehand. -/
theorem mergeAll_mergeAll_cons (lead rest : List StyleObject) :
    mergeAll (mergeAll lead :: rest) = mergeAll (lead ++ rest) := by
  rw [mergeAll_cons]
  exact List.foldl_append.symm

/-- The last two of three objects can be merged beforehand exactly if no key has a block, a value and a
block again, of which the first block can be seen under the last. -/
theorem mergeAll_assoc_iff (a b c : StyleObject) :
    mergeAll [a, mergeAll [b, c]] = mergeAll [a, b, c] ↔
      ∀ key d v d', a.get? key = some (.nested d) → b.get? key = some (.value v) →
        c.get? key = some (.nested d') → d.merge d' = d' := by
  simp only [mergeAll_cons, List.foldl_cons, List.foldl_nil, mergeWith_eq_layer,
    OrderedMap.layer_assoc_iff StyleEntry.over_none, StyleEntry.over_assoc_iff]
  constructor
  · intro h key d v d' ha hb hc
    exact h key _ _ hb hc d v d' ha rfl rfl
  · intro h key e new hb hc d v d' ha he hnew
    exact h key d v d' ha (he ▸ hb) (hnew ▸ hc)

/-- Merging three objects comes to the same as merging the first two beforehand, and as merging the last
two beforehand unless some key has a block in the first object, a value in the second one and a block in
the third one. Merging an object with itself, or alone, changes nothing. The order of the entries is the
same as well, inside blocks too. Blocks are merged in the same way, without an exception. -/
theorem mergeAll_assoc_self (a b c : StyleObject) :
    mergeAll [mergeAll [a, b], c] = mergeAll [a, b, c] ∧
      ((¬ ∃ key d v d', a.get? key = some (.nested d) ∧ b.get? key = some (.value v) ∧
        c.get? key = some (.nested d')) → mergeAll [a, mergeAll [b, c]] = mergeAll [a, b, c]) ∧
      mergeAll [a, a] = a ∧ mergeAll [a] = a ∧
      ∀ d e g : Declarations, (d.merge e).merge g = d.merge (e.merge g) ∧ d.merge d = d := by
  refine ⟨mergeAll_mergeAll_cons [a, b] [c], ?_, ?_, mergeAll_cons a [], ?_⟩
  · intro hswitch
    refine (mergeAll_assoc_iff a b c).2 fun key d v d' ha hb hc => ?_
    exact absurd ⟨key, d, v, d', ha, hb, hc⟩ hswitch
  · rw [mergeAll_cons]
    exact mergeWith_self a
  · intro d e g
    exact ⟨OrderedMap.merge_assoc d e g, OrderedMap.merge_self d⟩

/-- A block in all three objects, and a key that is a block, a value and a value. -/
theorem mergeAll_assoc_self_mixed :
    let a : StyleObject := ⟨[("&:hover", .nested ⟨[("top", .text "1"), ("left", .null)], by decide⟩),
      ("&:focus", .nested ⟨[("color", .text "red")], by decide⟩)], by decide⟩
    let b : StyleObject := ⟨[("&:focus", .value (.text "x")),
      ("&:hover", .nested ⟨[("left", .text "2")], by decide⟩)], by decide⟩
    let c : StyleObject := ⟨[("width", .value .null), ("&:focus", .value (.text "y")),
      ("&:hover", .nested ⟨[("right", .text "3"), ("top", .text "4")], by decide⟩)], by decide⟩
    (¬ ∃ key d v d', a.get? key = some (.nested d) ∧ b.get? key = some (.value v) ∧
      c.get? key = some (.nested d')) ∧ mergeAll [a, mergeAll [b, c]] = mergeAll [a, b, c] ∧
      (mergeAll [a, b, c]).keys = ["&:hover", "&:focus", "width"] := by
  intro a b c
  have hswitch : ¬ ∃ key d v d', a.get? key = some (.nested d) ∧ b.get? key = some (.value v) ∧
      c.get? key = some (.nested d') := by
    rintro ⟨key, d, v, d', -, hb, hc⟩
    -- The only value of `b` stands under a key that has no block in `c`.
    obtain ⟨hkey, -⟩ : key = "&:focus" ∧ v = .text "x" := by
      simpa [b] using OrderedMap.get?_eq_some_iff.1 hb
    rw [hkey] at hc
    cases hc
  exact ⟨hswitch, (mergeAll_assoc_self a b c).2.1 hswitch, by decide +kernel⟩

/-- Where a key is a block, a value and a block again, the brackets matter. -/
example :
    let a : StyleObject := ⟨[("&:hover", .nested ⟨[("top", .text "1")], by decide⟩)], by decide⟩
    let b : StyleObject := ⟨[("&:hover", .value .null)], by decide⟩
    let c : StyleObject := ⟨[("&:hover", .nested ⟨[("left", .text "2")], by decide⟩)], by decide⟩
    mergeAll [a, b, c] = c ∧ mergeAll [a, mergeAll [b, c]] ≠ c := by
  decide +kernel

end StyleObject

end ScopedCss
