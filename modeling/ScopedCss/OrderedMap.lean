/-!
# Ordered maps

A map that remembers the order in which its keys were first written. Declaration blocks, style
objects, the groups of a style object and the live classes of a registry are all maps of this
kind, and their order is visible: it decides the order of the rendered text and so the content
hash.

Two laws fix the behaviour. Writing under a key that is present replaces the value where it
stands; writing under a new key appends. So the keys are pairwise distinct and stand in the order
of first insertion, which overwriting never changes. The distinctness of the keys is part of the
type: whoever holds a map needs no well-formedness hypothesis.

The operations are first given on plain lists of pairs (`Pairs`), where recursion and induction
are direct, and then carried over to `OrderedMap`.
-/

namespace ScopedCss

/-! ## Lists of pairs -/

namespace Pairs

variable {κ α β : Type}

/-- The keys of a list of pairs, in order. -/
abbrev keys (ps : List (κ × α)) : List κ := ps.map Prod.fst

/-- Applies `f` to every value. -/
def mapValues (f : κ → α → β) (ps : List (κ × α)) : List (κ × β) :=
  ps.map fun p => (p.1, f p.1 p.2)

@[simp] theorem keys_mapValues (f : κ → α → β) (ps : List (κ × α)) :
    keys (mapValues f ps) = keys ps := by
  simp [keys, mapValues, Function.comp_def]

variable [DecidableEq κ]

/-- The value of the first pair with key `k`. -/
def get? (k : κ) : List (κ × α) → Option α
  | [] => none
  | p :: ps => if p.1 = k then some p.2 else get? k ps

/-- Writes `v` under `k`: in place if the key is present, at the end otherwise. -/
def set (k : κ) (v : α) : List (κ × α) → List (κ × α)
  | [] => [(k, v)]
  | p :: ps => if p.1 = k then (k, v) :: ps else p :: set k v ps

/-- Applies `f` to the value under `k`, wherever the key stands. -/
def update (k : κ) (f : α → α) (ps : List (κ × α)) : List (κ × α) :=
  ps.map fun p => if p.1 = k then (k, f p.2) else p

/-- Removes the pairs with key `k`. -/
def erase (k : κ) (ps : List (κ × α)) : List (κ × α) :=
  ps.filter fun p => decide (p.1 ≠ k)

/-- Overwriting keeps the keys; writing under a new key appends it. -/
theorem keys_set (k : κ) (v : α) (ps : List (κ × α)) :
    keys (set k v ps) = if k ∈ keys ps then keys ps else keys ps ++ [k] := by
  induction ps with
  | nil => simp [set, keys]
  | cons p ps ih =>
    by_cases h : p.1 = k
    · simp [set, keys, h]
    · have h' : ¬ k = p.1 := fun e => h e.symm
      simp only [keys] at ih
      by_cases hk : k ∈ ps.map Prod.fst <;>
        simp only [set, h, keys, List.map_cons, List.mem_cons, h', hk, ih, false_or, if_true,
          if_false, List.cons_append]

@[simp] theorem keys_update (k : κ) (f : α → α) (ps : List (κ × α)) :
    keys (update k f ps) = keys ps := by
  simp only [keys, update, List.map_map]
  refine List.map_congr_left fun p _ => ?_
  by_cases h : p.1 = k <;> simp [h]

theorem nodup_keys_set {k : κ} {v : α} {ps : List (κ × α)} (h : (keys ps).Nodup) :
    (keys (set k v ps)).Nodup := by
  rw [keys_set]
  split
  · exact h
  · next hk => exact List.nodup_append.2 ⟨h, by simp, fun a ha b hb e => hk (by simp_all)⟩

end Pairs

/-! ## Ordered maps -/

/-- A map from `κ` to `α` whose pairs stand in the order in which their keys were first written. -/
structure OrderedMap (κ α : Type) where
  /-- The pairs, in order. -/
  toList : List (κ × α)
  /-- No key occurs twice. -/
  nodup_keys : (Pairs.keys toList).Nodup
  deriving DecidableEq

namespace OrderedMap

variable {κ α β : Type}

/-- The map without any key. -/
def empty : OrderedMap κ α := ⟨[], by simp⟩

instance : EmptyCollection (OrderedMap κ α) := ⟨empty⟩

instance : Inhabited (OrderedMap κ α) := ⟨empty⟩

/-- The keys, in order of first insertion. -/
def keys (m : OrderedMap κ α) : List κ := Pairs.keys m.toList

/-- The values, in the order of their keys. -/
def values (m : OrderedMap κ α) : List α := m.toList.map Prod.snd

/-- The number of keys. -/
def size (m : OrderedMap κ α) : Nat := m.toList.length

/-- Whether there is no key at all. -/
def isEmpty (m : OrderedMap κ α) : Bool := m.toList.isEmpty

/-- Keeps the pairs that satisfy `p`, in their order. -/
def filter (p : κ → α → Bool) (m : OrderedMap κ α) : OrderedMap κ α where
  toList := m.toList.filter fun e => p e.1 e.2
  nodup_keys := m.nodup_keys.sublist (List.filter_sublist.map _)

/-- Replaces every value, keeping keys and order. -/
def mapValues (f : κ → α → β) (m : OrderedMap κ α) : OrderedMap κ β where
  toList := Pairs.mapValues f m.toList
  nodup_keys := by simpa using m.nodup_keys

variable [DecidableEq κ]

/-- The value under a key. -/
def get? (m : OrderedMap κ α) (k : κ) : Option α := Pairs.get? k m.toList

/-- Whether the key is present. -/
def contains (m : OrderedMap κ α) (k : κ) : Bool := (m.get? k).isSome

/-- Writes a value: in place if the key is present, as the last pair otherwise. -/
def set (m : OrderedMap κ α) (k : κ) (v : α) : OrderedMap κ α where
  toList := Pairs.set k v m.toList
  nodup_keys := Pairs.nodup_keys_set m.nodup_keys

/-- Changes the value under a key where it stands; without the key, changes nothing. -/
def update (m : OrderedMap κ α) (k : κ) (f : α → α) : OrderedMap κ α where
  toList := Pairs.update k f m.toList
  nodup_keys := by simpa using m.nodup_keys

/-- Removes a key and its value. -/
def erase (m : OrderedMap κ α) (k : κ) : OrderedMap κ α where
  toList := Pairs.erase k m.toList
  nodup_keys := m.nodup_keys.sublist (List.filter_sublist.map _)

/-- Writes each pair of a list in turn. -/
def setAll (m : OrderedMap κ α) (ps : List (κ × α)) : OrderedMap κ α :=
  ps.foldl (fun m p => m.set p.1 p.2) m

/-- The map made by writing the pairs one after the other: of a repeated key the first occurrence
decides the place and the last one the value. -/
def ofList (ps : List (κ × α)) : OrderedMap κ α := empty.setAll ps

/-- Writes the pairs of `n`, in order, over those of `m`. -/
def merge (m n : OrderedMap κ α) : OrderedMap κ α := m.setAll n.toList

end OrderedMap

end ScopedCss
