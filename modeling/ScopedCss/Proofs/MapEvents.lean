import Mathlib.Data.List.Induction
import Mathlib.Data.Nat.Find
import ScopedCss.Proofs.OrderedMap

/-!
# What has happened to a map

A log tells what was done to a map that was empty at first. For each key by itself it says what stands
under the key (`standing`) and since when (`lastAbsence`). A map that follows a log has under each key
what the log leaves there, and its keys stand in the order in which they came in: a value that is
written over another one does not move its key, and the keys that are left when others are stripped keep
their order. A key that is stripped and written again comes in anew.
-/

namespace ScopedCss

/-- Something that is done to a map. -/
inductive MapEvent (κ α : Type) where
  /-- Something is written under a key, and may take up what stands there. -/
  | write (k : κ) (f : Option α → α)
  /-- What stands under a key is edited, if anything does. -/
  | edit (k : κ) (f : α → α)
  /-- The values that fail a test are stripped, with their keys. -/
  | strip (keep : α → Bool)

namespace MapEvent

variable {κ α : Type}

/-- A value is written under a key, whatever stands there. -/
def put (k : κ) (v : α) : MapEvent κ α := .write k fun _ => v

/-- Pairs are written one after the other. -/
def puts (ps : List (κ × α)) : List (MapEvent κ α) := ps.map fun p => put p.1 p.2

/-- The key that an event is about. -/
def key? : MapEvent κ α → Option κ
  | .write k _ => some k
  | .edit k _ => some k
  | .strip _ => none

variable [DecidableEq κ]

/-- The map after an event. -/
def apply (m : OrderedMap κ α) : MapEvent κ α → OrderedMap κ α
  | .write k f => m.set k (f (m.get? k))
  | .edit k f => m.update k f
  | .strip keep => m.filter fun _ v => keep v

/-- What an event leaves under the key `k`, from what stood there. -/
def under (k : κ) (old : Option α) : MapEvent κ α → Option α
  | .write k' f => if k' = k then some (f old) else old
  | .edit k' f => if k' = k then old.map f else old
  | .strip keep => old.filter keep

end MapEvent

open MapEvent

variable {κ α : Type} [DecidableEq κ]

/-- What a log leaves under a key. -/
def standing (k : κ) (log : List (MapEvent κ α)) : Option α := log.foldl (MapEvent.under k) none

/-- The number of events up to the last moment at which nothing stood under the key. -/
def lastAbsence (k : κ) (log : List (MapEvent κ α)) : Nat :=
  Nat.findGreatest (fun n => (standing k (log.take n)).isNone = true) log.length

/-- The map has what the log leaves under each key, and its keys in the order in which they came in. -/
structure OrderedMap.Follows (m : OrderedMap κ α) (log : List (MapEvent κ α)) : Prop where
  get? : ∀ k, m.get? k = standing k log
  keys : m.keys.Pairwise fun k k' => lastAbsence k log < lastAbsence k' log

/-! ## One key -/

theorem standing_concat (k : κ) (log : List (MapEvent κ α)) (e : MapEvent κ α) :
    standing k (log ++ [e]) = e.under k (standing k log) := List.foldl_append

theorem standing_append (k : κ) (log later : List (MapEvent κ α)) :
    standing k (log ++ later) = later.foldl (MapEvent.under k) (standing k log) := List.foldl_append

omit [DecidableEq κ] in
theorem take_concat (log : List (MapEvent κ α)) (e : MapEvent κ α) {n : Nat} (h : n ≤ log.length) :
    (log ++ [e]).take n = log.take n := List.take_append_of_le_length h

/-- The moment of the last absence is one, and something stands under the key after every later event. -/
theorem lastAbsence_eq_iff {k : κ} {log : List (MapEvent κ α)} {n : Nat} :
    lastAbsence k log = n ↔ n ≤ log.length ∧ standing k (log.take n) = none ∧
      ∀ j, n < j → j ≤ log.length → standing k (log.take j) ≠ none := by
  rw [lastAbsence, Nat.findGreatest_eq_iff]
  simp only [Option.isNone_iff_eq_none]
  refine and_congr_right fun _ => and_congr_left fun _ => ?_
  -- At the beginning nothing stands under any key.
  cases n with
  | zero => exact iff_of_true (fun h => absurd rfl h) rfl
  | succ n => exact forall_prop_of_true (Nat.succ_ne_zero n)

theorem lastAbsence_of_none {k : κ} {log : List (MapEvent κ α)} (h : standing k log = none) :
    lastAbsence k log = log.length := by
  rw [lastAbsence_eq_iff, List.take_length]
  exact ⟨le_rfl, h, fun j hj hle => absurd hle (Nat.not_le.2 hj)⟩

theorem lastAbsence_lt {k : κ} {log : List (MapEvent κ α)} (h : standing k log ≠ none) :
    lastAbsence k log < log.length := by
  obtain ⟨hle, habsent, -⟩ := lastAbsence_eq_iff.1 (Eq.refl (lastAbsence k log))
  refine lt_of_le_of_ne hle fun e => h ?_
  rwa [e, List.take_length] at habsent

/-- An event after which the key is there does not change since when it is there. -/
theorem lastAbsence_concat {k : κ} {log : List (MapEvent κ α)} {e : MapEvent κ α}
    (h : standing k (log ++ [e]) ≠ none) : lastAbsence k (log ++ [e]) = lastAbsence k log := by
  obtain ⟨hle, habsent, hsince⟩ := lastAbsence_eq_iff.1 (Eq.refl (lastAbsence k log))
  rw [lastAbsence_eq_iff, List.length_append, List.length_singleton, take_concat log e hle]
  refine ⟨Nat.le_succ_of_le hle, habsent, fun j hj hle' => ?_⟩
  rcases Nat.lt_or_eq_of_le hle' with hlt | rfl
  · have hjle : j ≤ log.length := Nat.le_of_lt_succ hlt
    rw [take_concat log e hjle]
    exact hsince j hj hjle
  · rwa [List.take_of_length_le (by simp)]

/-- Nothing changes under a key through events about other keys and strips that the value survives. -/
theorem foldl_under_of_forall {k : κ} {v : α} {later : List (MapEvent κ α)}
    (hother : ∀ e ∈ later, e.key? ≠ some k) (hkept : ∀ keep, .strip keep ∈ later → keep v = true) :
    later.foldl (MapEvent.under k) (some v) = some v := by
  induction later with
  | nil => rfl
  | cons e later ih =>
    obtain ⟨he, hother⟩ := List.forall_mem_cons.1 hother
    have hunder : e.under k (some v) = some v := by
      cases e with
      | write k' f => exact if_neg fun hk => he (congrArg some hk)
      | edit k' f => exact if_neg fun hk => he (congrArg some hk)
      | strip keep => exact if_pos (hkept keep List.mem_cons_self)
    rw [List.foldl_cons, hunder]
    exact ih hother fun keep hkeep => hkept keep (List.mem_cons_of_mem _ hkeep)

/-- The value was put under the key last of all, and no later strip has taken it away. -/
def PutLast (k : κ) (v : α) (log : List (MapEvent κ α)) : Prop :=
  ∃ before later, log = before ++ .put k v :: later ∧ (∀ e ∈ later, e.key? ≠ some k) ∧
    ∀ keep, .strip keep ∈ later → keep v = true

theorem PutLast.standing_eq {k : κ} {v : α} {log : List (MapEvent κ α)} (h : PutLast k v log) :
    standing k log = some v := by
  obtain ⟨before, later, rfl, hother, hkept⟩ := h
  rw [standing_append, List.foldl_cons, MapEvent.put, MapEvent.under, if_pos rfl]
  exact foldl_under_of_forall hother hkept

/-- Plain values are put, and values are stripped; nothing else happens. -/
def IsPlainEvent (e : MapEvent κ α) : Prop := (∃ k v, e = .put k v) ∨ ∃ keep, e = .strip keep

/-- If values are only put and stripped, then what stands under a key is the value that was put there
last. -/
theorem standing_eq_some_iff {k : κ} {v : α} {log : List (MapEvent κ α)}
    (hlog : ∀ e ∈ log, IsPlainEvent e) : standing k log = some v ↔ PutLast k v log := by
  refine ⟨?_, PutLast.standing_eq⟩
  intro h
  induction log using List.reverseRecOn generalizing v with
  | nil => cases h
  | append_singleton log e ih =>
    have hinit : ∀ e ∈ log, IsPlainEvent e := fun e he => hlog e (List.mem_append_left _ he)
    rw [standing_concat] at h
    rcases hlog e (List.mem_append_right _ List.mem_cons_self) with ⟨k', w, rfl⟩ | ⟨keep, rfl⟩
    · rw [MapEvent.put, MapEvent.under] at h
      split at h
      · next hk =>
        subst hk
        cases h
        exact ⟨log, [], rfl, nofun, nofun⟩
      · next hk =>
        obtain ⟨before, later, rfl, hother, hkept⟩ := ih hinit h
        refine ⟨before, later ++ [.put k' w], by simp, ?_, ?_⟩
        · intro e he
          rcases List.mem_append.1 he with he | he
          · exact hother e he
          · rw [List.mem_singleton.1 he]
            exact fun e => hk (Option.some.inj e)
        · intro keep hkeep
          rcases List.mem_append.1 hkeep with hkeep | hkeep
          · exact hkept keep hkeep
          · cases List.mem_singleton.1 hkeep
    · obtain ⟨hv, hkeepv⟩ := Option.filter_eq_some_iff.1 h
      obtain ⟨before, later, rfl, hother, hkept⟩ := ih hinit hv
      refine ⟨before, later ++ [.strip keep], by simp, ?_, ?_⟩
      · intro e he
        rcases List.mem_append.1 he with he | he
        · exact hother e he
        · rw [List.mem_singleton.1 he]
          nofun
      · intro keep' hkeep'
        rcases List.mem_append.1 hkeep' with hkeep' | hkeep'
        · exact hkept keep' hkeep'
        · cases List.mem_singleton.1 hkeep'
          exact hkeepv

/-! ## Maps that follow a log -/

namespace OrderedMap

theorem get?_filter (m : OrderedMap κ α) (keep : α → Bool) (k : κ) :
    (m.filter fun _ v => keep v).get? k = (m.get? k).filter keep := by
  ext v
  rw [get?_eq_some_iff, Option.filter_eq_some_iff, get?_eq_some_iff]
  exact List.mem_filter

namespace Follows

variable {m : OrderedMap κ α} {log : List (MapEvent κ α)}

theorem empty : (empty : OrderedMap κ α).Follows [] := ⟨fun _ => rfl, List.Pairwise.nil⟩

theorem standing_ne_none (h : m.Follows log) {k : κ} : standing k log ≠ none ↔ k ∈ m.keys := by
  rw [← h.get?, ne_eq, get?_eq_none_iff, not_not]

/-- One more event changes the map as it changes what the log says of each key. -/
theorem get?_apply (h : m.Follows log) (e : MapEvent κ α) (k : κ) :
    (e.apply m).get? k = standing k (log ++ [e]) := by
  rw [standing_concat, ← h.get?]
  cases e with
  | write k' f =>
    rw [MapEvent.apply, get?_set, MapEvent.under]
    by_cases hk : k' = k
    · rw [if_pos hk, if_pos hk.symm, hk]
    · rw [if_neg hk, if_neg (Ne.symm hk)]
  | edit k' f =>
    rw [MapEvent.apply, get?_update, MapEvent.under]
    by_cases hk : k' = k
    · rw [if_pos hk, if_pos hk.symm]
    · rw [if_neg hk, if_neg (Ne.symm hk)]
  | strip keep => exact get?_filter m keep k

/-- Keys that stay after an event keep their order. -/
theorem pairwise_of_sublist (h : m.Follows log) {e : MapEvent κ α} {ks : List κ}
    (hsub : ks.Sublist m.keys) (hstay : ∀ k ∈ ks, standing k (log ++ [e]) ≠ none) :
    ks.Pairwise fun k k' => lastAbsence k (log ++ [e]) < lastAbsence k' (log ++ [e]) := by
  refine (h.keys.sublist hsub).imp_of_mem fun hk hk' hlt => ?_
  rwa [lastAbsence_concat (hstay _ hk), lastAbsence_concat (hstay _ hk')]

/-- What one event does: values are written and edited in place, new keys come last, and what is
stripped leaves the others where they are. -/
theorem apply (h : m.Follows log) (e : MapEvent κ α) : (e.apply m).Follows (log ++ [e]) := by
  have hget := h.get?_apply e
  have hstay : ∀ k ∈ (e.apply m).keys, standing k (log ++ [e]) ≠ none := by
    intro k hk
    rw [← hget, ne_eq, get?_eq_none_iff, not_not]
    exact hk
  refine ⟨hget, ?_⟩
  cases e with
  | write k f =>
    by_cases hk : k ∈ m.keys
    · have hkeys : (MapEvent.apply m (.write k f)).keys = m.keys := keys_set_of_mem hk _
      rw [hkeys] at hstay ⊢
      exact h.pairwise_of_sublist (List.Sublist.refl _) hstay
    · have hkeys : (MapEvent.apply m (.write k f)).keys = m.keys ++ [k] := keys_set_of_notMem hk _
      rw [hkeys] at hstay ⊢
      have hold : ∀ k' ∈ m.keys, standing k' (log ++ [.write k f]) ≠ none := fun k' hk' =>
        hstay k' (List.mem_append_left _ hk')
      refine List.pairwise_append.2 ⟨h.pairwise_of_sublist (List.Sublist.refl _) hold,
        List.pairwise_singleton _ _, ?_⟩
      intro k' hk' k'' hk''
      rw [List.mem_singleton.1 hk'', lastAbsence_concat (hold k' hk'),
        lastAbsence_concat (hstay k (List.mem_append_right _ List.mem_cons_self))]
      -- The new key is absent up to the event, the others are not.
      have hnew : standing k log = none := by
        rwa [← h.get?, get?_eq_none_iff]
      rw [lastAbsence_of_none hnew]
      exact lastAbsence_lt (h.standing_ne_none.2 hk')
  | edit k f =>
    have hkeys : (MapEvent.apply m (.edit k f)).keys = m.keys := Pairs.keys_update k f m.toList
    rw [hkeys] at hstay ⊢
    exact h.pairwise_of_sublist (List.Sublist.refl _) hstay
  | strip keep => exact h.pairwise_of_sublist (List.filter_sublist.map Prod.fst) hstay

theorem applyAll (h : m.Follows log) (es : List (MapEvent κ α)) :
    (es.foldl MapEvent.apply m).Follows (log ++ es) := by
  induction es generalizing m log with
  | nil => rwa [List.append_nil]
  | cons e es ih =>
    rw [List.foldl_cons, List.append_cons]
    exact ih (h.apply e)

end Follows

end OrderedMap

end ScopedCss
