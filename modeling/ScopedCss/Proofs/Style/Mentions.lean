import Mathlib.Data.List.DropRight
import Mathlib.Data.List.Induction
import ScopedCss.Proofs.OrderedMap
import ScopedCss.Style.Merge

/-!
# The last writer wins

An ordered map that is made by a list of writes is determined key by key: the keys stand in the order
in which they were first written, and what stands under a key depends on what was said under this key
only, in its order (`saidOf`). Style objects are merged by such writes. Under a key of the merged
object stands the last value, or what the blocks after the last value come to if a block was given
last, and in such a block each property has the value that was given to it last.
-/

namespace ScopedCss

namespace Pairs

variable {κ α : Type} [DecidableEq κ]

/-- Everything that is said under a key, in order. -/
def saidOf (k : κ) (ps : List (κ × α)) : List α := (ps.filter fun p => p.1 = k).map Prod.snd

/-- The keys, each where it was first mentioned. -/
def firstMentions (ps : List (κ × α)) : List κ := (keys ps).eraseDups

theorem saidOf_concat (k : κ) (ps : List (κ × α)) (p : κ × α) :
    saidOf k (ps ++ [p]) = if p.1 = k then saidOf k ps ++ [p.2] else saidOf k ps := by
  rw [saidOf, List.filter_append, List.map_append]
  by_cases h : p.1 = k
  · simp [saidOf, h]
  · simp [saidOf, h]

/-- One more write adds a first mention only if its key is new. -/
theorem firstMentions_concat (ps : List (κ × α)) (p : κ × α) :
    firstMentions (ps ++ [p]) =
      if p.1 ∈ firstMentions ps then firstMentions ps else firstMentions ps ++ [p.1] := by
  have hkeys : keys (ps ++ [p]) = keys ps ++ [p.1] := List.map_append
  rw [firstMentions, firstMentions, hkeys, List.eraseDups_append]
  by_cases h : p.1 ∈ keys ps
  · simp [h, List.removeAll]
  · simp [h, List.removeAll, List.eraseDups_cons]

/-- Matched lists have matched values under each key, in the same order. -/
theorem Matched.saidOf {β : Type} {R : α → β → Prop} {ps : List (κ × α)} {qs : List (κ × β)}
    (h : Matched R ps qs) (k : κ) : List.Forall₂ R (saidOf k ps) (saidOf k qs) := by
  induction h with
  | nil => exact .nil
  | @cons p q ps qs hp _ ih =>
    rw [Pairs.saidOf, Pairs.saidOf, List.filter_cons, List.filter_cons, ← hp.1]
    by_cases hk : p.1 = k
    · rw [if_pos (decide_eq_true hk), if_pos (decide_eq_true hk)]
      exact .cons hp.2 ih
    · rw [if_neg (by simpa using hk), if_neg (by simpa using hk)]
      exact ih

end Pairs

namespace OrderedMap

open Pairs

variable {κ α β : Type} [DecidableEq κ]

/-- The map made by writes one after the other, each of which sees what stands under its key. -/
def written (f : α → Option β → β) (ps : List (κ × α)) : OrderedMap κ β :=
  ps.foldl (fun m p => m.set p.1 (f p.2 (m.get? p.1))) empty

theorem written_concat (f : α → Option β → β) (ps : List (κ × α)) (p : κ × α) :
    written f (ps ++ [p]) = (written f ps).set p.1 (f p.2 ((written f ps).get? p.1)) :=
  List.foldl_append

theorem keys_written (f : α → Option β → β) (ps : List (κ × α)) :
    (written f ps).keys = firstMentions ps := by
  induction ps using List.reverseRecOn with
  | nil => rfl
  | append_singleton ps p ih =>
    rw [written_concat, firstMentions_concat, ← ih]
    exact Pairs.keys_set p.1 _ _

/-- What stands under a key depends on what was said under it only. -/
theorem get?_written (f : α → Option β → β) (ps : List (κ × α)) (k : κ) :
    (written f ps).get? k = (saidOf k ps).foldl (fun old v => some (f v old)) none := by
  induction ps using List.reverseRecOn with
  | nil => rfl
  | append_singleton ps p ih =>
    rw [written_concat, get?_set, saidOf_concat]
    by_cases h : p.1 = k
    · subst h
      rw [if_pos rfl, if_pos rfl, List.foldl_append, ← ih]
      rfl
    · rw [if_neg h, if_neg fun e => h e.symm, ih]

/-- A map is determined by its keys and what stands under them. -/
theorem toList_eq_filterMap (m : OrderedMap κ β) :
    m.toList = m.keys.filterMap fun k => (m.get? k).map (Prod.mk k) := by
  have hself : ∀ p ∈ m.toList, (m.get? p.1).map (Prod.mk p.1) = some p := by
    intro p hp
    rw [get?_eq_some_iff.2 hp]
    rfl
  calc m.toList = m.toList.filterMap some := List.filterMap_some.symm
    _ = m.toList.filterMap fun p => (m.get? p.1).map (Prod.mk p.1) :=
      List.filterMap_congr fun p hp => (hself p hp).symm
    _ = m.keys.filterMap fun k => (m.get? k).map (Prod.mk k) := by
      rw [OrderedMap.keys, Pairs.keys, List.filterMap_map]
      rfl

theorem toList_written (f : α → Option β → β) (ps : List (κ × α)) :
    (written f ps).toList = (firstMentions ps).filterMap fun k =>
      ((saidOf k ps).foldl (fun old v => some (f v old)) none).map (Prod.mk k) := by
  rw [toList_eq_filterMap, keys_written]
  refine List.filterMap_congr fun k _ => ?_
  rw [get?_written]

/-- Of plain writes under one key, the last one stays. -/
theorem foldl_last (vs : List α) :
    vs.foldl (fun (_ : Option α) v => some v) none = vs.getLast? := by
  induction vs using List.reverseRecOn with
  | nil => rfl
  | append_singleton vs v _ => simp

theorem keys_ofList (ps : List (κ × α)) : (ofList ps).keys = firstMentions ps :=
  keys_written (fun v _ => v) ps

theorem get?_ofList (ps : List (κ × α)) (k : κ) : (ofList ps).get? k = (saidOf k ps).getLast? := by
  have hwritten : ofList ps = written (fun v _ => v) ps := rfl
  rw [hwritten, get?_written, foldl_last]

theorem toList_ofList_eq (ps : List (κ × α)) :
    (ofList ps).toList = (firstMentions ps).filterMap fun k =>
      (saidOf k ps).getLast?.map (Prod.mk k) := by
  rw [toList_eq_filterMap, keys_ofList]
  refine List.filterMap_congr fun k _ => ?_
  rw [get?_ofList]

end OrderedMap

/-! ## Blocks and values under one key -/

namespace StyleEntry

/-- The blocks among entries. -/
def blocksAmong (es : List StyleEntry) : List Declarations :=
  es.filterMap fun
    | .nested d => some d
    | .value _ => none

/-- The blocks after the last value. -/
def laterBlocks (es : List StyleEntry) : List Declarations := blocksAmong (es.rtakeWhile isNested)

theorem laterBlocks_concat_nested (es : List StyleEntry) (d : Declarations) :
    laterBlocks (es ++ [.nested d]) = laterBlocks es ++ [d] := by
  rw [laterBlocks, List.rtakeWhile_concat_pos isNested es (.nested d) rfl, blocksAmong, List.filterMap_append]
  rfl

theorem laterBlocks_of_getLast?_value {es : List StyleEntry} {v : StyleValue}
    (h : es.getLast? = some (.value v)) : laterBlocks es = [] := by
  obtain ⟨es', rfl⟩ := List.getLast?_eq_some_iff.1 h
  rw [laterBlocks, List.rtakeWhile_concat_neg isNested es' (.value v) (by simp [isNested])]
  rfl

/-- What stands under a key, from what was said under it: the last value, or all declarations of the
blocks after the last value. -/
def settled (es : List StyleEntry) : Option StyleEntry :=
  match es.getLast? with
  | none => none
  | some (.value v) => some (.value v)
  | some (.nested _) =>
    some (.nested (OrderedMap.ofList ((laterBlocks es).flatMap OrderedMap.toList)))

/-- Entries laid over one another come to what the last of them says, together with the blocks right
before it if it is a block. -/
theorem foldl_over (es : List StyleEntry) :
    es.foldl (fun old e => some (StyleEntry.over e old)) none = settled es := by
  induction es using List.reverseRecOn with
  | nil => rfl
  | append_singleton es e ih =>
    rw [List.foldl_append, ih, settled, settled, List.getLast?_concat]
    cases e with
    | value v => rfl
    | nested d =>
      rw [laterBlocks_concat_nested, List.flatMap_append, List.flatMap_singleton]
      show some (StyleEntry.over (.nested d) _) = some (.nested _)
      cases hlast : es.getLast? with
      | none =>
        rw [List.getLast?_eq_none_iff.1 hlast]
        exact congrArg (some ∘ nested) (OrderedMap.ofList_toList d).symm
      | some e =>
        cases e with
        | value v =>
          rw [laterBlocks_of_getLast?_value hlast]
          exact congrArg (some ∘ nested) (OrderedMap.ofList_toList d).symm
        | nested existing =>
          exact congrArg (some ∘ nested) (OrderedMap.setAll_append _ _ _).symm

end StyleEntry

namespace StyleObject

/-- Merging is writing all entries of all objects, one after the other. -/
theorem mergeAll_eq_written (objects : List StyleObject) :
    mergeAll objects = OrderedMap.written StyleEntry.over (objects.flatMap OrderedMap.toList) :=
  List.foldl_flatMap.symm

/-- A merged object is read off the list of all entries: its keys in the order of their first
mention, each with what was said under it. -/
theorem toList_mergeAll (objects : List StyleObject) :
    (mergeAll objects).toList =
      (Pairs.firstMentions (objects.flatMap OrderedMap.toList)).filterMap fun key =>
        (StyleEntry.settled (Pairs.saidOf key (objects.flatMap OrderedMap.toList))).map
          (Prod.mk key) := by
  rw [mergeAll_eq_written, OrderedMap.toList_written]
  refine List.filterMap_congr fun key _ => ?_
  rw [StyleEntry.foldl_over]

end StyleObject

end ScopedCss
