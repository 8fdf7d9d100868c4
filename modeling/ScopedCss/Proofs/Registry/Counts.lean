import ScopedCss.Proofs.Registry.Frame

/-!
# Reference counts

A registry tallies a list of class names if it counts every class as often as its name occurs in
the list, and has an entry for no other. Inserting an element adds the names of its tree to the
list, once per path, or adds nothing if it fails; removing one takes them away. No law of the sink
is needed for this: the counts do not depend on what the sink does.

The walks that give classes up go on silently where there is nothing to give up. The checked walks
(`relinquish?`, `removeElement?`, `insertElement?`) stop there instead, and the two agree on a
registry that tallies what it is to give up.
-/

namespace ScopedCss

/-! ## Occurrences -/

namespace StyleElement

mutual

/-- How many nodes of the tree own the class, once per path. -/
def occurrences (n : ClassName) : StyleElement → Nat
  | .node cs owned => occurrencesInAll n cs + (owned.toList.countP fun f => f.className = n)
termination_by structural e => e

/-- How many nodes of several trees own the class, tree by tree. -/
def occurrencesInAll (n : ClassName) : List StyleElement → Nat
  | [] => 0
  | e :: es => occurrences n e + occurrencesInAll n es
termination_by structural es => es

end

/-- A name occurs in a tree as often as it stands in the list of its class names. -/
theorem occurrences_eq_count (n : ClassName) :
    (∀ e : StyleElement, e.occurrences n = e.classNames.count n) ∧
    ∀ es : List StyleElement, occurrencesInAll n es = (classNamesOfAll es).count n := by
  refine StyleElement.induct (fun cs owned ih => ?_) rfl fun e es ihe ihes => ?_
  · rw [occurrences, ih, classNames_node, List.count_append]
    cases owned with
    | none => rfl
    | some f =>
      by_cases hf : f.className = n
      · simp [hf]
      · simp [hf]
  · rw [occurrencesInAll, ihe, ihes, classNamesOfAll_cons, List.count_append]

end StyleElement

namespace Registry

open StyleElement

variable {σ : Type}

/-! ## Tallies -/

/-- Every class is counted as often as its name is in the list, and there are no other entries. -/
def Tallies (r : Registry σ) (ns : List ClassName) : Prop :=
  ∀ n, (r.entries.get? n).map RegistryEntry.count = if n ∈ ns then some (ns.count n) else none

namespace Tallies

variable {r t : Registry σ} {ns ms : List ClassName} {n : ClassName}

theorem of_entries (h : Tallies r ns) (ht : t.entries = r.entries) : Tallies t ns := by
  intro m
  rw [ht]
  exact h m

theorem perm (h : Tallies r ns) (hp : ns.Perm ms) : Tallies r ms := by
  intro m
  rw [h m, hp.count_eq m]
  simp only [hp.mem_iff]

theorem of_empty (h : r.entries = OrderedMap.empty) : Tallies r [] := by
  intro m
  rw [h, OrderedMap.get?_empty]
  rfl

theorem entry (h : Tallies r ns) (hn : n ∈ ns) :
    ∃ e, r.entries.get? n = some e ∧ e.count = ns.count n := by
  have hm := h n
  rw [if_pos hn, Option.map_eq_some_iff] at hm
  exact hm

theorem get?_eq_none (h : Tallies r ns) (hn : n ∉ ns) : r.entries.get? n = none := by
  have hm := h n
  rw [if_neg hn, Option.map_eq_none_iff] at hm
  exact hm

theorem refCount_eq (h : Tallies r ns) (n : ClassName) : r.refCount n = ns.count n := by
  rw [refCount, h n]
  split
  · rfl
  · next hn => exact (List.count_eq_zero_of_not_mem hn).symm

theorem contains_iff (h : Tallies r ns) (n : ClassName) : r.contains n = true ↔ n ∈ ns := by
  rw [contains, OrderedMap.contains]
  by_cases hn : n ∈ ns
  · obtain ⟨e, he, -⟩ := h.entry hn
    simp [he, hn]
  · simp [h.get?_eq_none hn, hn]

end Tallies

variable [Sink σ]

/-! ## Checked walks -/

/-- Counts one reference less to a class, unless there is none to it. -/
def relinquish? (r : Registry σ) (n : ClassName) : Option (Registry σ) :=
  match r.entries.get? n with
  | none => none
  | some e => if e.count = 0 then none else some (r.relinquish n)

mutual

/-- Removes a tree, unless a class has no reference left when its turn comes. -/
def removeElement? (r : Registry σ) : StyleElement → Option (Registry σ)
  | .node cs owned =>
    match removeAll? r cs with
    | none => none
    | some r =>
      match owned with
      | none => some r
      | some f => r.relinquish? f.className
termination_by structural e => e

/-- Removes several trees, first to last. -/
def removeAll? (r : Registry σ) : List StyleElement → Option (Registry σ)
  | [] => some r
  | e :: es =>
    match removeElement? r e with
    | none => none
    | some r => removeAll? r es
termination_by structural es => es

end

mutual

/-- Inserts a tree; none if undoing a failure meets a class that has no reference left. -/
def insertElement? (r : Registry σ) : StyleElement → Option (Except RegistryError Unit × Registry σ)
  | .node cs owned =>
    match insertAll? r [] cs with
    | none => none
    | some (.error e, r) => some (.error e, r)
    | some (.ok (), r) =>
      match owned with
      | none => some (.ok (), r)
      | some f =>
        match r.acquire f with
        | (.error e, r) => (r.removeAll? cs.reverse).map fun r => (.error e, r)
        | (.ok (), r) => some (.ok (), r)
termination_by structural e => e

/-- Inserts several trees after those in `done`. -/
def insertAll? (r : Registry σ) (done : List StyleElement) :
    List StyleElement → Option (Except RegistryError Unit × Registry σ)
  | [] => some (.ok (), r)
  | e :: es =>
    match insertElement? r e with
    | none => none
    | some (.error err, r) => (r.removeAll? done).map fun r => (.error err, r)
    | some (.ok (), r) => insertAll? r (e :: done) es
termination_by structural es => es

end

/-- Takes a registration back; none if a class of its element has no reference left. -/
def release? (r : Registry σ) (reg : Registration) : Option (Registry σ) :=
  if reg.registry = r.id then r.removeElement? reg.element else some (r.release reg)

/-! ## Giving up -/

/-- A registry that has a class to give up does not stop at it, and then tallies the rest. -/
theorem Tallies.relinquish {r : Registry σ} {n : ClassName} {ns : List ClassName}
    (h : Tallies r (n :: ns)) :
    r.relinquish? n = some (r.relinquish n) ∧ Tallies (r.relinquish n) ns := by
  obtain ⟨e, he, hc⟩ := h.entry List.mem_cons_self
  rw [List.count_cons_self] at hc
  refine ⟨?_, fun m => ?_⟩
  · rw [relinquish?, he]
    exact if_neg (by omega)
  · rw [relinquish_entries]
    by_cases hm : m = n
    · subst hm
      rw [dropRef, he]
      simp only [hc, Nat.add_sub_cancel, List.count_pos_iff]
      split
      · rw [OrderedMap.get?_set, if_pos rfl]
        rfl
      · rw [OrderedMap.get?_erase, if_pos rfl]
        rfl
    · rw [get?_dropRef_of_ne hm, h m, List.count_cons_of_ne (Ne.symm hm)]
      simp only [List.mem_cons, hm, false_or]

/-- The same for the walk that removes a tree: where every class of it is tallied, the checked walk
goes through and does what the silent one does. -/
theorem Tallies.removals :
    (∀ (e : StyleElement) (r : Registry σ) (ns : List ClassName), Tallies r (e.classNames ++ ns) →
      r.removeElement? e = some (r.removeElement e) ∧ Tallies (r.removeElement e) ns) ∧
    ∀ (es : List StyleElement) (r : Registry σ) (ns : List ClassName),
      Tallies r (classNamesOfAll es ++ ns) →
      r.removeAll? es = some (r.removeAll es) ∧ Tallies (r.removeAll es) ns := by
  refine StyleElement.induct (fun cs owned ih r ns h => ?_) (fun r ns h => ⟨rfl, h⟩)
    fun e es ihe ihes r ns h => ?_
  · rw [classNames_node, List.append_assoc] at h
    obtain ⟨hcs, ht⟩ := ih r _ h
    rw [removeElement?, hcs]
    cases owned with
    | none => exact ⟨rfl, ht⟩
    | some f => exact ht.relinquish
  · rw [classNamesOfAll_cons, List.append_assoc] at h
    obtain ⟨he, ht⟩ := ihe r _ h
    rw [removeAll?, he]
    exact ihes _ ns ht

/-- A registry that tallies the names of a tree finds every reference that it is to give up. -/
theorem Tallies.removeElement {r : Registry σ} {e : StyleElement} {ns : List ClassName}
    (h : Tallies r (e.classNames ++ ns)) :
    r.removeElement? e = some (r.removeElement e) ∧ Tallies (r.removeElement e) ns :=
  removals.1 e r ns h

theorem Tallies.removeAll {r : Registry σ} {es : List StyleElement} {ns : List ClassName}
    (h : Tallies r (classNamesOfAll es ++ ns)) :
    r.removeAll? es = some (r.removeAll es) ∧ Tallies (r.removeAll es) ns :=
  removals.2 es r ns h

/-! ## Acquiring -/

/-- A class that has been acquired has an entry that counts one reference more, and no other entry
is touched. -/
theorem acquire_ok_entries {r t : Registry σ} {f : Fragment} (h : r.acquire f = (.ok (), t)) :
    ∃ handles, t.entries = r.entries.set f.className ⟨r.refCount f.className + 1, handles⟩ := by
  rw [acquire] at h
  split at h
  · next e hg =>
    cases h
    exact ⟨e.handles, by rw [refCount, hg]; rfl⟩
  · next hg =>
    have hframe := (addRules_frame r [] f.rules).2
    split at h
    · cases h
    · next handles s hs =>
      cases h
      rw [hs] at hframe
      refine ⟨handles, ?_⟩
      rw [refCount, hg]
      show s.entries.set _ _ = _
      rw [hframe]
      rfl

/-- Acquiring fragments counts every class as often as it occurs among them. -/
theorem refCount_acquireAll {r t : Registry σ} {fs : List Fragment}
    (h : r.acquireAll fs = (.ok (), t)) (n : ClassName) :
    t.refCount n = r.refCount n + (fs.map Fragment.className).count n := by
  induction fs generalizing r with
  | nil =>
    cases h
    rfl
  | cons f fs ih =>
    obtain ⟨s, hs, h⟩ := acquireAll_cons_ok.1 h
    obtain ⟨handles, hentries⟩ := acquire_ok_entries hs
    have hcount : s.refCount n = r.refCount n + if f.className = n then 1 else 0 := by
      rw [refCount, hentries, OrderedMap.get?_set]
      by_cases hn : n = f.className
      · subst hn
        rw [if_pos rfl, if_pos rfl]
        rfl
      · rw [if_neg hn, if_neg (Ne.symm hn)]
        rfl
    rw [ih h, hcount, List.map_cons, List.count_cons]
    simp only [beq_iff_eq]
    omega

/-- Where acquiring a class fails, the entries stay as they are. -/
theorem acquire_error_entries {r t : Registry σ} {f : Fragment} {err : RegistryError}
    (h : r.acquire f = (.error err, t)) : t.entries = r.entries := by
  rw [acquire] at h
  split at h
  · cases h
  · have hframe := (addRules_frame r [] f.rules).2
    split at h
    · next hs =>
      cases h
      rw [hs] at hframe
      exact hframe
    · cases h

/-- Acquiring a class adds its name to the tally. -/
theorem Tallies.acquire_ok {r t : Registry σ} {f : Fragment} {ns : List ClassName}
    (h : Tallies r ns) (he : r.acquire f = (.ok (), t)) : Tallies t (f.className :: ns) := by
  obtain ⟨handles, ht⟩ := acquire_ok_entries he
  intro m
  rw [ht, OrderedMap.get?_set]
  by_cases hm : m = f.className
  · subst hm
    rw [if_pos rfl, if_pos List.mem_cons_self, List.count_cons_self, h.refCount_eq]
    rfl
  · rw [if_neg hm, h m, List.count_cons_of_ne (Ne.symm hm)]
    simp only [List.mem_cons, hm, false_or]

/-- Acquiring classes one after the other adds their names to the tally. -/
theorem Tallies.acquireAll_ok {r t : Registry σ} {fs : List Fragment} {ns : List ClassName}
    (h : Tallies r ns) (he : r.acquireAll fs = (.ok (), t)) :
    Tallies t (fs.map Fragment.className ++ ns) := by
  induction fs generalizing r ns with
  | nil =>
    cases he
    exact h
  | cons f fs ih =>
    obtain ⟨s, hs, he⟩ := acquireAll_cons_ok.1 he
    exact (ih (h.acquire_ok hs) he).perm List.perm_middle

/-! ## Inserting -/

/-- What is tallied after an attempt to add `ms`. -/
def tallyAfter (answer : Except RegistryError Unit) (ms ns : List ClassName) : List ClassName :=
  match answer with
  | .ok () => ms ++ ns
  | .error _ => ns

/-- Whether a tree is inserted or not, undoing finds every reference that it is to give up. In a
list of trees, those in `done` are given up as well if one fails. -/
theorem Tallies.insertions :
    (∀ (e : StyleElement) (r : Registry σ) (ns : List ClassName), Tallies r ns →
      r.insertElement? e = some (r.insertElement e) ∧
        Tallies (r.insertElement e).2 (tallyAfter (r.insertElement e).1 e.classNames ns)) ∧
    ∀ (es : List StyleElement) (r : Registry σ) (done : List StyleElement) (ns : List ClassName),
      Tallies r (classNamesOfAll done ++ ns) →
      r.insertAll? done es = some (r.insertAll done es) ∧
        Tallies (r.insertAll done es).2
          (tallyAfter (r.insertAll done es).1 (classNamesOfAll (es.reverse ++ done)) ns) := by
  refine StyleElement.induct (fun cs owned ih r ns h => ?_) (fun r done ns h => ⟨rfl, h⟩)
    fun e es ihe ihes r done ns h => ?_
  · obtain ⟨hcs, ht⟩ := ih r [] ns h
    rw [List.append_nil] at ht
    rw [insertElement?, hcs, insertElement, classNames_node]
    rcases hs : r.insertAll [] cs with ⟨err | ⟨⟨⟩⟩, s⟩
    · rw [hs] at ht
      exact ⟨rfl, ht⟩
    · rw [hs] at ht
      have hs' : Tallies s (classNamesOfAll cs ++ ns) :=
        ht.perm ((classNamesOfAll_perm (List.reverse_perm cs)).append_right ns)
      cases owned with
      | none =>
        refine ⟨rfl, ?_⟩
        rw [Option.toList_none, List.map_nil, List.append_nil]
        exact hs'
      | some f =>
        simp only
        rcases hf : s.acquire f with ⟨err | ⟨⟨⟩⟩, u⟩
        · have hu : Tallies u (classNamesOfAll cs.reverse ++ ns) :=
            ht.of_entries (acquire_error_entries hf)
          obtain ⟨hback, hns⟩ := hu.removeAll
          simp only [hback]
          exact ⟨rfl, hns⟩
        · refine ⟨rfl, (hs'.acquire_ok hf).perm ?_⟩
          show (f.className :: (classNamesOfAll cs ++ ns)).Perm
            (classNamesOfAll cs ++ [f.className] ++ ns)
          rw [List.append_assoc]
          exact List.perm_middle.symm
  · obtain ⟨he, ht⟩ := ihe r _ h
    rw [insertAll?, he, insertAll]
    rcases hs : r.insertElement e with ⟨err | ⟨⟨⟩⟩, s⟩
    · rw [hs] at ht
      obtain ⟨hback, hns⟩ := Tallies.removeAll ht
      simp only [hback]
      exact ⟨rfl, hns⟩
    · rw [hs] at ht
      have hdone : Tallies s (classNamesOfAll (e :: done) ++ ns) := by
        rw [classNamesOfAll_cons, List.append_assoc]
        exact ht
      have := ihes s (e :: done) ns hdone
      rw [List.reverse_cons, List.append_assoc]
      exact this

theorem Tallies.insertElement {r : Registry σ} {ns : List ClassName} (h : Tallies r ns)
    (e : StyleElement) :
    r.insertElement? e = some (r.insertElement e) ∧
      Tallies (r.insertElement e).2 (tallyAfter (r.insertElement e).1 e.classNames ns) :=
  insertions.1 e r ns h

end Registry

end ScopedCss
