import Mathlib.Data.List.Dedup
import Mathlib.Data.List.Perm.Basic
import Mathlib.Data.List.Nodup
import ScopedCss.OrderedMap

/-!
# Laws of ordered maps

What reading, writing and erasing do to one another. Equations between maps are equations between
lists of pairs, so they speak of the order of the keys as well: writing a key that is present and
writing back what was there changes nothing, and erasing a key that has just been added leaves the
map as it was.
-/

namespace ScopedCss

/-- A list without duplicates is, up to the order, what is left of any list with the same members. -/
theorem perm_dedup_of_nodup {α : Type} [DecidableEq α] {l l' : List α} (hl : l.Nodup)
    (h : ∀ a, a ∈ l ↔ a ∈ l') : l.Perm l'.dedup := by
  apply (List.perm_ext_iff_of_nodup hl (List.nodup_dedup l')).2
  intro a
  rw [List.mem_dedup]
  exact h a

namespace Pairs

variable {κ α : Type}

/-- Pairs that are left out, or changed under their keys, leave the other keys in their order. -/
theorem keys_filterMap_sublist {β : Type} {f : κ × α → Option (κ × β)}
    (hf : ∀ p q, f p = some q → q.1 = p.1) (ps : List (κ × α)) :
    (keys (ps.filterMap f)).Sublist (keys ps) := by
  induction ps with
  | nil => exact .slnil
  | cons p ps ih =>
    cases hp : f p with
    | none =>
      rw [List.filterMap_cons_none hp]
      exact ih.cons p.1
    | some q =>
      rw [List.filterMap_cons_some hp, keys, List.map_cons, hf p q hp]
      exact ih.cons_cons p.1

variable [DecidableEq κ]

theorem erase_cons (k : κ) (p : κ × α) (ps : List (κ × α)) :
    erase k (p :: ps) = if p.1 = k then erase k ps else p :: erase k ps := by
  by_cases h : p.1 = k <;> simp [erase, h]

/-! ## Reading -/

theorem get?_eq_none_iff {k : κ} {ps : List (κ × α)} : get? k ps = none ↔ k ∉ keys ps := by
  induction ps with
  | nil => simp [get?, keys]
  | cons p ps ih =>
    by_cases h : p.1 = k
    · simp [get?, keys, h]
    · have h' : ¬ k = p.1 := fun e => h e.symm
      simp only [get?, h, if_false, ih, keys, List.map_cons, List.mem_cons, h', false_or]

/-- What is found under a key is one of the pairs. -/
theorem mem_of_get? {k : κ} {v : α} {ps : List (κ × α)} (h : get? k ps = some v) : (k, v) ∈ ps := by
  induction ps with
  | nil => simp [get?] at h
  | cons p ps ih =>
    by_cases hp : p.1 = k
    · simp only [get?, hp, if_true, Option.some.injEq] at h
      rw [← hp, ← h]
      exact List.mem_cons_self
    · simp only [get?, hp, if_false] at h
      exact List.mem_cons_of_mem _ (ih h)

/-- With distinct keys, every pair is found under its key. -/
theorem get?_of_mem {k : κ} {v : α} {ps : List (κ × α)} (hn : (keys ps).Nodup)
    (h : (k, v) ∈ ps) : get? k ps = some v := by
  induction ps with
  | nil => simp at h
  | cons p ps ih =>
    obtain ⟨hp, hn⟩ := List.nodup_cons.1 hn
    rcases List.mem_cons.1 h with rfl | h
    · simp [get?]
    · have hne : p.1 ≠ k := fun e => hp (e ▸ List.mem_map_of_mem (f := Prod.fst) h)
      simp only [get?, hne, if_false]
      exact ih hn h

/-- Writing changes what is found under the key written to, and under no other. -/
theorem get?_set (k k' : κ) (v : α) (ps : List (κ × α)) :
    get? k' (set k v ps) = if k' = k then some v else get? k' ps := by
  induction ps with
  | nil => simp [set, get?, eq_comm]
  | cons p ps ih =>
    by_cases h : p.1 = k
    · by_cases hk : k' = k
      · simp [set, get?, h, hk]
      · have hk' : ¬ k = k' := fun e => hk e.symm
        simp [set, get?, h, hk, hk']
    · by_cases hp : p.1 = k'
      · have hk : ¬ k' = k := fun e => h (hp.trans e)
        simp [set, get?, hp, hk]
      · simp only [set, h, if_false, get?, hp, ih]

/-- Erasing changes what is found under the key erased, and under no other. -/
theorem get?_erase (k k' : κ) (ps : List (κ × α)) :
    get? k' (erase k ps) = if k' = k then none else get? k' ps := by
  induction ps with
  | nil => simp [erase, get?]
  | cons p ps ih =>
    rw [erase_cons]
    by_cases h : p.1 = k
    · rw [if_pos h, ih]
      by_cases hk : k' = k
      · rw [if_pos hk, if_pos hk]
      · have hp : ¬ p.1 = k' := fun e => hk (e.symm.trans h)
        rw [if_neg hk, if_neg hk, get?, if_neg hp]
    · rw [if_neg h]
      by_cases hp : p.1 = k'
      · have hk : ¬ k' = k := fun e => h (hp.trans e)
        simp [get?, hp, hk]
      · simp only [get?, hp, if_false, ih]

/-- An update acts on what is found under its key; where nothing is, it does nothing. -/
theorem get?_update (k k' : κ) (f : α → α) (ps : List (κ × α)) :
    get? k' (update k f ps) = if k' = k then (get? k' ps).map f else get? k' ps := by
  induction ps with
  | nil => simp [update, get?]
  | cons p ps ih =>
    simp only [update, List.map_cons] at ih ⊢
    by_cases h : p.1 = k
    · by_cases hk : k' = k
      · simp [get?, h, hk]
      · have hk' : ¬ k = k' := fun e => hk e.symm
        simp only [get?, h, if_true, hk', if_false, ih, hk]
    · by_cases hp : p.1 = k'
      · have hk : ¬ k' = k := fun e => h (hp.trans e)
        simp [get?, hp, hk]
      · simp only [get?, h, hp, if_false, ih]

/-! ## Writing and erasing -/

/-- Writing back what stands under a key changes nothing, the order included. -/
theorem set_of_get? {k : κ} {v : α} {ps : List (κ × α)} (h : get? k ps = some v) :
    set k v ps = ps := by
  induction ps with
  | nil => simp [get?] at h
  | cons p ps ih =>
    by_cases hp : p.1 = k
    · simp only [get?, hp, if_true, Option.some.injEq] at h
      rw [set, if_pos hp, ← hp, ← h]
    · simp only [get?, hp, if_false] at h
      simp [set, hp, ih h]

theorem set_set (k : κ) (v w : α) (ps : List (κ × α)) : set k w (set k v ps) = set k w ps := by
  induction ps with
  | nil => simp [set]
  | cons p ps ih => by_cases hp : p.1 = k <;> simp [set, hp, ih]

theorem erase_of_notMem {k : κ} {ps : List (κ × α)} (h : k ∉ keys ps) : erase k ps = ps := by
  refine List.filter_eq_self.2 fun p hp => decide_eq_true fun e => h ?_
  exact e ▸ List.mem_map_of_mem (f := Prod.fst) hp

theorem set_of_notMem {k : κ} (v : α) {ps : List (κ × α)} (h : k ∉ keys ps) :
    set k v ps = ps ++ [(k, v)] := by
  induction ps with
  | nil => rfl
  | cons p ps ih =>
    have hp : ¬ p.1 = k := fun e => h (by simp [keys, e])
    have hk : k ∉ keys ps := fun e => h (List.mem_cons_of_mem _ e)
    simp [set, hp, ih hk]

theorem erase_set_of_notMem {k : κ} (v : α) {ps : List (κ × α)} (h : k ∉ keys ps) :
    erase k (set k v ps) = ps := by
  have he : erase k (ps ++ [(k, v)]) = erase k ps ++ erase k [(k, v)] := List.filter_append ..
  rw [set_of_notMem v h, he, erase_of_notMem h, erase_cons, if_pos rfl]
  exact List.append_nil ps

/-- Keys that are present can be written in any order, since they stay where they are. -/
theorem set_comm {k k' : κ} (hk : k ≠ k') (v v' : α) {ps : List (κ × α)} (h : k ∈ keys ps)
    (h' : k' ∈ keys ps) : set k v (set k' v' ps) = set k' v' (set k v ps) := by
  induction ps with
  | nil => simp at h
  | cons p ps ih =>
    by_cases hp : p.1 = k
    · have hp' : ¬ p.1 = k' := fun e => hk (hp.symm.trans e)
      simp [set, hp, hk]
    · by_cases hp' : p.1 = k'
      · have hk' : ¬ k' = k := fun e => hk e.symm
        simp [set, hp', hk']
      · have hm : k ∈ keys ps := (List.mem_cons.1 h).resolve_left fun e => hp e.symm
        have hm' : k' ∈ keys ps := (List.mem_cons.1 h').resolve_left fun e => hp' e.symm
        simp [set, hp, hp', ih hm hm']

/-- Writing under one key and erasing another can be done in either order. -/
theorem erase_set_comm {k k' : κ} (hk : k ≠ k') (v : α) (ps : List (κ × α)) :
    erase k (set k' v ps) = set k' v (erase k ps) := by
  have hk' : ¬ k' = k := fun e => hk e.symm
  induction ps with
  | nil => simp [set, erase, hk']
  | cons p ps ih =>
    by_cases hp : p.1 = k'
    · have hp' : ¬ p.1 = k := fun e => hk' (hp.symm.trans e)
      rw [set, if_pos hp, erase_cons, if_neg hk', erase_cons, if_neg hp', set, if_pos hp]
    · rw [set, if_neg hp, erase_cons, erase_cons, ih]
      by_cases hp' : p.1 = k
      · rw [if_pos hp', if_pos hp']
      · rw [if_neg hp', if_neg hp', set, if_neg hp]

theorem erase_comm (k k' : κ) (ps : List (κ × α)) :
    erase k (erase k' ps) = erase k' (erase k ps) := by
  simp only [erase, List.filter_filter]
  exact List.filter_congr fun p _ => Bool.and_comm _ _

theorem update_cons (k : κ) (f : α → α) (p : κ × α) (ps : List (κ × α)) :
    update k f (p :: ps) = (if p.1 = k then (k, f p.2) else p) :: update k f ps := List.map_cons

theorem update_of_notMem {k : κ} (f : α → α) {ps : List (κ × α)} (h : k ∉ keys ps) :
    update k f ps = ps := by
  induction ps with
  | nil => rfl
  | cons p ps ih =>
    obtain ⟨hp, hps⟩ := not_or.1 fun e => h (List.mem_cons.2 e)
    rw [update_cons, if_neg fun e => hp e.symm, ih hps]

/-! ## Where pairs come from -/

/-- After a write every pair is the one written or was there before. -/
theorem mem_set {k : κ} {v : α} {ps : List (κ × α)} {p : κ × α} (h : p ∈ set k v ps) :
    p = (k, v) ∨ p ∈ ps := by
  induction ps with
  | nil => exact .inl (List.mem_singleton.1 h)
  | cons q ps ih =>
    rw [set] at h
    split at h
    · rcases List.mem_cons.1 h with h | h
      · exact .inl h
      · exact .inr (List.mem_cons_of_mem q h)
    · rcases List.mem_cons.1 h with h | h
      · exact .inr (h ▸ List.mem_cons_self)
      · exact (ih h).imp id (List.mem_cons_of_mem q)

theorem mem_update {k : κ} {f : α → α} {ps : List (κ × α)} {p : κ × α} (h : p ∈ update k f ps) :
    p ∈ ps ∨ ∃ v, (k, v) ∈ ps ∧ p = (k, f v) := by
  obtain ⟨q, hq, e⟩ := List.mem_map.1 h
  split at e
  · next hk => exact .inr ⟨q.2, hk ▸ hq, e.symm⟩
  · exact .inl (e ▸ hq)

/-! ## Two lists side by side -/

/-- The same keys at the same places, and related values under them. -/
abbrev Matched {β : Type} (R : α → β → Prop) : List (κ × α) → List (κ × β) → Prop :=
  List.Forall₂ fun p q => p.1 = q.1 ∧ R p.2 q.2

omit [DecidableEq κ] in
theorem Matched.keys_eq {β : Type} {R : α → β → Prop} {ps : List (κ × α)} {qs : List (κ × β)}
    (h : Matched R ps qs) : keys ps = keys qs := by
  induction h with
  | nil => rfl
  | cons hp _ ih => exact congrArg₂ List.cons hp.1 ih

/-- Matched lists stay matched when matching values are written under one key. -/
theorem Matched.set {β : Type} {R : α → β → Prop} {ps : List (κ × α)} {qs : List (κ × β)}
    (h : Matched R ps qs) (k : κ) {v : α} {w : β} (hv : R v w) :
    Matched R (Pairs.set k v ps) (Pairs.set k w qs) := by
  induction h with
  | nil => exact .cons ⟨rfl, hv⟩ .nil
  | @cons p q ps qs hp hps ih =>
    rw [Pairs.set, Pairs.set, ← hp.1]
    split
    · exact .cons ⟨rfl, hv⟩ hps
    · exact .cons hp ih

/-! ## Pairs as a multiset -/

/-- A pair that is present can be taken to the front. -/
theorem perm_cons_erase {k : κ} {v : α} {ps : List (κ × α)} (hn : (keys ps).Nodup)
    (h : get? k ps = some v) : ps.Perm ((k, v) :: erase k ps) := by
  induction ps with
  | nil => simp [get?] at h
  | cons p ps ih =>
    obtain ⟨hp, hn⟩ := List.nodup_cons.1 hn
    by_cases e : p.1 = k
    · simp only [get?, e, if_true, Option.some.injEq] at h
      have hk : k ∉ keys ps := e ▸ hp
      rw [erase_cons, if_pos e, erase_of_notMem hk, ← h, ← e]
    · simp only [get?, e, if_false] at h
      rw [erase_cons, if_neg e]
      exact ((ih hn h).cons p).trans (List.Perm.swap _ _ _)

end Pairs

namespace OrderedMap

variable {κ α : Type}

theorem ext_toList {m n : OrderedMap κ α} (h : m.toList = n.toList) : m = n := by
  cases m; cases n
  simp only at h
  subst h
  rfl

variable [DecidableEq κ]

@[simp] theorem get?_empty (k : κ) : (empty : OrderedMap κ α).get? k = none := rfl

theorem get?_set (m : OrderedMap κ α) (k k' : κ) (v : α) :
    (m.set k v).get? k' = if k' = k then some v else m.get? k' := Pairs.get?_set k k' v m.toList

theorem get?_erase (m : OrderedMap κ α) (k k' : κ) :
    (m.erase k).get? k' = if k' = k then none else m.get? k' := Pairs.get?_erase k k' m.toList

theorem get?_update (m : OrderedMap κ α) (k k' : κ) (f : α → α) :
    (m.update k f).get? k' = if k' = k then (m.get? k').map f else m.get? k' :=
  Pairs.get?_update k k' f m.toList

theorem get?_eq_none_iff {m : OrderedMap κ α} {k : κ} : m.get? k = none ↔ k ∉ m.keys :=
  Pairs.get?_eq_none_iff

theorem contains_iff {m : OrderedMap κ α} {k : κ} : m.contains k = true ↔ k ∈ m.keys := by
  rw [contains, Option.isSome_iff_ne_none, ne_eq, get?_eq_none_iff, not_not]

theorem mem_keys_of_get? {m : OrderedMap κ α} {k : κ} {v : α} (h : m.get? k = some v) :
    k ∈ m.keys := by
  by_contra hk
  rw [get?_eq_none_iff.2 hk] at h
  cases h

theorem get?_eq_some_iff {m : OrderedMap κ α} {k : κ} {v : α} :
    m.get? k = some v ↔ (k, v) ∈ m.toList :=
  ⟨Pairs.mem_of_get?, Pairs.get?_of_mem m.nodup_keys⟩

theorem set_of_get? {m : OrderedMap κ α} {k : κ} {v : α} (h : m.get? k = some v) : m.set k v = m :=
  ext_toList (Pairs.set_of_get? h)

theorem set_set (m : OrderedMap κ α) (k : κ) (v w : α) : (m.set k v).set k w = m.set k w :=
  ext_toList (Pairs.set_set k v w m.toList)

theorem erase_set_of_get?_none {m : OrderedMap κ α} {k : κ} (h : m.get? k = none) (v : α) :
    (m.set k v).erase k = m :=
  ext_toList (Pairs.erase_set_of_notMem v (Pairs.get?_eq_none_iff.1 h))

theorem set_comm {m : OrderedMap κ α} {k k' : κ} (hk : k ≠ k') (v v' : α) (h : k ∈ m.keys)
    (h' : k' ∈ m.keys) : (m.set k' v').set k v = (m.set k v).set k' v' :=
  ext_toList (Pairs.set_comm hk v v' h h')

theorem erase_set_comm {k k' : κ} (hk : k ≠ k') (m : OrderedMap κ α) (v : α) :
    (m.set k' v).erase k = (m.erase k).set k' v :=
  ext_toList (Pairs.erase_set_comm hk v m.toList)

theorem erase_comm (m : OrderedMap κ α) (k k' : κ) : (m.erase k').erase k = (m.erase k).erase k' :=
  ext_toList (Pairs.erase_comm k k' m.toList)

theorem keys_perm {m : OrderedMap κ α} {k : κ} {v : α} (h : m.get? k = some v) :
    m.keys.Perm (k :: (m.erase k).keys) :=
  (Pairs.perm_cons_erase m.nodup_keys h).map Prod.fst

theorem keys_set_of_mem {m : OrderedMap κ α} {k : κ} (h : k ∈ m.keys) (v : α) :
    (m.set k v).keys = m.keys := (Pairs.keys_set k v m.toList).trans (if_pos h)

theorem keys_set_of_notMem {m : OrderedMap κ α} {k : κ} (h : k ∉ m.keys) (v : α) :
    (m.set k v).keys = m.keys ++ [k] := (Pairs.keys_set k v m.toList).trans (if_neg h)

theorem mem_keys_set {m : OrderedMap κ α} {k k' : κ} {v : α} :
    k' ∈ (m.set k v).keys ↔ k' ∈ m.keys ∨ k' = k := by
  by_cases hk : k ∈ m.keys
  · rw [keys_set_of_mem hk]
    exact ⟨.inl, fun h => h.elim id fun e => e ▸ hk⟩
  · rw [keys_set_of_notMem hk, List.mem_append, List.mem_singleton]

theorem toList_update (m : OrderedMap κ α) (k : κ) (f : α → α) :
    (m.update k f).toList = Pairs.update k f m.toList := rfl

theorem toList_set_of_notMem {m : OrderedMap κ α} {k : κ} (h : k ∉ m.keys) (v : α) :
    (m.set k v).toList = m.toList ++ [(k, v)] := Pairs.set_of_notMem v h

/-! ## Writing several pairs -/

/-- After several writes every pair is one of those written or was there before. -/
theorem mem_setAll {m : OrderedMap κ α} {ps : List (κ × α)} {p : κ × α}
    (h : p ∈ (m.setAll ps).toList) : p ∈ m.toList ∨ p ∈ ps := by
  induction ps generalizing m with
  | nil => exact .inl h
  | cons q ps ih =>
    rcases ih h with h | h
    · rcases Pairs.mem_set h with h | h
      · exact .inr (h ▸ List.mem_cons_self)
      · exact .inl h
    · exact .inr (List.mem_cons_of_mem q h)

theorem mem_keys_setAll {m : OrderedMap κ α} {ps : List (κ × α)} {k : κ} :
    k ∈ (m.setAll ps).keys ↔ k ∈ m.keys ∨ k ∈ Pairs.keys ps := by
  induction ps generalizing m with
  | nil => exact ⟨.inl, fun h => h.elim id fun h => by cases h⟩
  | cons p ps ih =>
    rw [setAll, List.foldl_cons, ← setAll, ih, mem_keys_set, or_assoc, ← List.mem_cons]
    rfl

/-- Matched maps stay matched when matching lists of pairs are written into them. -/
theorem matched_setAll {β : Type} {R : α → β → Prop} {m : OrderedMap κ α} {n : OrderedMap κ β}
    {ps : List (κ × α)} {qs : List (κ × β)} (h : Pairs.Matched R m.toList n.toList)
    (hps : Pairs.Matched R ps qs) : Pairs.Matched R (m.setAll ps).toList (n.setAll qs).toList := by
  induction hps generalizing m n with
  | nil => exact h
  | @cons p q ps qs hp _ ih =>
    have hset : Pairs.Matched R (m.set p.1 p.2).toList (n.set q.1 q.2).toList := by
      rw [← hp.1]
      exact h.set p.1 hp.2
    exact ih hset

theorem setAll_append (m : OrderedMap κ α) (ps qs : List (κ × α)) :
    m.setAll (ps ++ qs) = (m.setAll ps).setAll qs := List.foldl_append

/-- New keys are appended. -/
theorem toList_setAll_of_nodup {m : OrderedMap κ α} {ps : List (κ × α)}
    (h : (m.keys ++ Pairs.keys ps).Nodup) : (m.setAll ps).toList = m.toList ++ ps := by
  induction ps generalizing m with
  | nil => exact (List.append_nil _).symm
  | cons p ps ih =>
    have hp : p.1 ∉ m.keys := by
      intro hm
      exact (List.nodup_append.1 h).2.2 p.1 hm p.1 List.mem_cons_self rfl
    have hrest : ((m.set p.1 p.2).keys ++ Pairs.keys ps).Nodup := by
      rw [keys_set_of_notMem hp, List.append_assoc]
      exact h
    rw [setAll, List.foldl_cons, ← setAll, ih hrest, toList_set_of_notMem hp, List.append_assoc]
    rfl

theorem ofList_append (ps qs : List (κ × α)) : ofList (ps ++ qs) = (ofList ps).setAll qs :=
  setAll_append empty ps qs

theorem toList_ofList {ps : List (κ × α)} (h : (Pairs.keys ps).Nodup) : (ofList ps).toList = ps :=
  toList_setAll_of_nodup h

theorem matched_ofList {β : Type} {R : α → β → Prop} {ps : List (κ × α)} {qs : List (κ × β)}
    (h : Pairs.Matched R ps qs) : Pairs.Matched R (ofList ps).toList (ofList qs).toList :=
  matched_setAll .nil h

theorem ofList_toList (m : OrderedMap κ α) : ofList m.toList = m :=
  ext_toList (toList_ofList m.nodup_keys)

end OrderedMap

end ScopedCss
