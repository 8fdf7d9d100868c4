import ScopedCss.Proofs.Registry.Holdings
import ScopedCss.Proofs.Sink.Listing
import ScopedCss.Proofs.Sink.Serving

/-!
# Which class comes first

A listing sink holds its rules in the order of their numbers, whatever it has given up
(`Ascending`). So of two classes, the one that became live first comes first in the sink, and of two
that became live with the same tree, the one that the walk met first (`Entered`).
-/

namespace ScopedCss

open LawfulSink ListingSink

/-! ## Sinks in the order of their numbers -/

section Ascending

variable {σ : Type} [Sink σ] [LawfulSink σ]

/-- The rules stand in the order of their numbers, and the next number is behind them all. -/
structure Ascending (s : σ) : Prop where
  sorted : ((held s).map Prod.fst).Pairwise fun h h' => h.id < h'.id
  lt_next : ∀ h ∈ (held s).map Prod.fst, h.id < next s

namespace Ascending

variable {s t : σ} {rule : StyleRule} {h : Handle} {cs : List SinkCall}

theorem of_held_nil (hs : held s = []) : Ascending s := by
  constructor
  · rw [hs]
    exact .nil
  · intro h hh
    rw [hs] at hh
    cases hh

/-- Giving up a rule leaves the others in order. -/
theorem retract (hs : Ascending s) (h : Handle) : Ascending (Sink.retract s h) := by
  have hsub : ((held (Sink.retract s h)).map Prod.fst).Sublist ((held s).map Prod.fst) := by
    rw [held_retract]
    exact (HeldRules.sublist_retract _ _).map _
  constructor
  · exact hs.sorted.sublist hsub
  · intro h' hh'
    rw [next_retract]
    exact hs.lt_next h' (hsub.subset hh')

/-- An operation of the sink leaves the numbers in order, for it keeps all rules or clears them. -/
theorem operate (hs : Ascending s) (op : SinkOperation) : Ascending (Sink.operate op s) := by
  rcases held_operate op s with hheld | ⟨-, hheld⟩
  · constructor
    · rw [hheld]
      exact hs.sorted
    · rw [hheld, next_operate]
      exact hs.lt_next
  · exact of_held_nil hheld

/-- Of two handles that are held, the one with the smaller number stands first. -/
theorem sublist_of_lt (hs : Ascending s) {h h' : Handle} (hh : h ∈ (held s).map Prod.fst)
    (hh' : h' ∈ (held s).map Prod.fst) (hlt : h.id < h'.id) :
    [h, h'].Sublist ((held s).map Prod.fst) := by
  obtain ⟨before, after, e⟩ := List.append_of_mem hh
  have hsorted := hs.sorted
  rw [e] at hh' hsorted ⊢
  obtain ⟨-, -, hbefore⟩ := List.pairwise_append.1 hsorted
  have hafter : h' ∈ after := by
    rcases List.mem_append.1 hh' with hh' | hh'
    · have hgt := hbefore h' hh' h List.mem_cons_self
      omega
    · rcases List.mem_cons.1 hh' with rfl | hh'
      · omega
      · exact hh'
  apply List.Sublist.trans _ (List.sublist_append_right _ _)
  exact (List.singleton_sublist.2 hafter).cons_cons h

variable [ListingSink σ]

/-- A rule that is taken comes last, with the largest number. -/
theorem add (hs : Ascending s) (hadd : Sink.add s rule = (.ok h, t)) : Ascending t := by
  obtain ⟨hid, hnext, -⟩ := add_ok hadd
  have hheld : (held t).map Prod.fst = (held s).map Prod.fst ++ [h] := by
    rw [held_add hadd, List.map_append]
    rfl
  constructor
  · rw [hheld]
    refine List.pairwise_append.2 ⟨hs.sorted, List.pairwise_singleton _ _, ?_⟩
    intro h₁ hh₁ h₂ hh₂
    rw [List.mem_singleton.1 hh₂, hid]
    exact hs.lt_next h₁ hh₁
  · intro h' hh'
    rw [hheld] at hh'
    rcases List.mem_append.1 hh' with hh' | hh'
    · have hlt := hs.lt_next h' hh'
      omega
    · rw [List.mem_singleton.1 hh']
      omega

/-- Whatever the sink is called for. -/
theorem serves (hs : Ascending s) (h : Serves s cs t) : Ascending t := by
  have hoffer : ∀ {s t : σ} {rule : StyleRule} {answer : Except SinkError Handle},
      Ascending s → Sink.add s rule = (answer, t) → Ascending t := by
    intro s t rule answer hs hadd
    cases answer with
    | error e =>
      rw [add_error hadd]
      exact hs
    | ok h => exact hs.add hadd
  induction h with
  | nil s => exact hs
  | add head _ ih => exact ih (hoffer hs head)
  | addGlobal head _ ih =>
    rw [addGlobal_eq] at head
    exact ih (hoffer hs head)
  | retract _ ih => exact ih (hs.retract _)

end Ascending

end Ascending

/-! ## The order of classes -/

/-- The names that come before the first occurrence of `n`: all of them if there is none. -/
def namesBefore (n : ClassName) (names : List ClassName) : List ClassName :=
  names.takeWhile fun m => m ≠ n

theorem namesBefore_cons_self (n : ClassName) (names : List ClassName) :
    namesBefore n (n :: names) = [] := by
  rw [namesBefore, List.takeWhile_cons_of_neg]
  simp

theorem namesBefore_cons_of_ne {n m : ClassName} (h : m ≠ n) (names : List ClassName) :
    namesBefore n (m :: names) = m :: namesBefore n names :=
  List.takeWhile_cons_of_pos (decide_eq_true h)

/-- Where a name occurs in a list, nothing behind that list stands in front of it. -/
theorem namesBefore_append_of_mem {n : ClassName} {names : List ClassName} (h : n ∈ names)
    (names' : List ClassName) : namesBefore n (names ++ names') = namesBefore n names := by
  induction names with
  | nil => cases h
  | cons m names ih =>
    by_cases hm : m = n
    · subst hm
      rw [List.cons_append, namesBefore_cons_self, namesBefore_cons_self]
    · have hmem : n ∈ names := (List.mem_cons.1 h).resolve_left (Ne.symm hm)
      rw [List.cons_append, namesBefore_cons_of_ne hm, namesBefore_cons_of_ne hm, ih hmem]

theorem namesBefore_append_of_notMem {n : ClassName} {names : List ClassName} (h : n ∉ names)
    (names' : List ClassName) :
    namesBefore n (names ++ names') = names ++ namesBefore n names' := by
  refine List.takeWhile_append_of_pos fun m hm => decide_eq_true ?_
  rintro rfl
  exact h hm

/-- Of two names, one comes before the other. -/
theorem mem_namesBefore_or {d n : ClassName} {names : List ClassName} (hd : d ∈ names)
    (hn : n ∈ names) (hne : d ≠ n) : d ∈ namesBefore n names ∨ n ∈ namesBefore d names := by
  induction names with
  | nil => cases hd
  | cons m names ih =>
    by_cases hmd : m = d
    · subst hmd
      rw [namesBefore_cons_of_ne hne]
      exact .inl List.mem_cons_self
    · by_cases hmn : m = n
      · subst hmn
        rw [namesBefore_cons_of_ne hmd]
        exact .inr List.mem_cons_self
      · rw [namesBefore_cons_of_ne hmd, namesBefore_cons_of_ne hmn]
        have hd' : d ∈ names := (List.mem_cons.1 hd).resolve_left (Ne.symm hmd)
        have hn' : n ∈ names := (List.mem_cons.1 hn).resolve_left (Ne.symm hmn)
        exact (ih hd' hn').imp (List.mem_cons_of_mem m) (List.mem_cons_of_mem m)

namespace Registry

variable {σ : Type}

theorem contains_iff_exists {r : Registry σ} {n : ClassName} :
    r.contains n = true ↔ ∃ e, r.entries.get? n = some e := Option.isSome_iff_exists

theorem not_contains_iff {r : Registry σ} {n : ClassName} :
    ¬ r.contains n = true ↔ r.entries.get? n = none := by
  rw [contains, OrderedMap.contains, Option.not_isSome_iff_eq_none]

/-- The numbers of the handles of the class `d` are smaller than those of the class `n`. -/
def Ahead (r : Registry σ) (d n : ClassName) : Prop :=
  ∀ e e', r.entries.get? d = some e → r.entries.get? n = some e' →
    ∀ h ∈ e.handles, ∀ h' ∈ e'.handles, h.id < h'.id

variable [Sink σ] [LawfulSink σ]

/-- Two classes are live, and in the sink all rules of `d` stand before all rules of `n`. -/
def StandsBefore (r : Registry σ) (d n : ClassName) : Prop :=
  ∃ e e', r.entries.get? d = some e ∧ r.entries.get? n = some e' ∧
    ∀ h ∈ e.handles, ∀ h' ∈ e'.handles, [h, h'].Sublist ((held r.sink).map Prod.fst)

/-- What a class is charged with is in the sink. -/
theorem Charged.mem_held {charge : ClassName → HeldRules} {extra : HeldRules} {r : Registry σ}
    (hr : Charged charge extra r) {n : ClassName} {e : RegistryEntry}
    (hget : r.entries.get? n = some e) {h : Handle} (hh : h ∈ e.handles) :
    h ∈ (LawfulSink.held r.sink).map Prod.fst := by
  rw [hr.handles n e hget] at hh
  obtain ⟨p, hp, rfl⟩ := List.mem_map.1 hh
  refine List.mem_map_of_mem (hr.held.mem_iff.2 (List.mem_append_left _ ?_))
  exact List.mem_flatMap.2 ⟨n, OrderedMap.mem_keys_of_get? hget, hp⟩

theorem Ahead.standsBefore {charge : ClassName → HeldRules} {extra : HeldRules} {r : Registry σ}
    {d n : ClassName} (h : r.Ahead d n) (hr : Charged charge extra r) (hs : Ascending r.sink)
    (hd : r.contains d = true) (hn : r.contains n = true) : r.StandsBefore d n := by
  obtain ⟨e, he⟩ := contains_iff_exists.1 hd
  obtain ⟨e', he'⟩ := contains_iff_exists.1 hn
  refine ⟨e, e', he, he', fun i hi j hj => ?_⟩
  exact hs.sublist_of_lt (hr.mem_held he hi) (hr.mem_held he' hj) (h e e' he he' i hi j hj)

/-! ## Classes that become live -/

/-- The registry `t` is what `r` becomes when classes with these names are acquired in turn. -/
structure Entered (r : Registry σ) (names : List ClassName) (t : Registry σ) : Prop where
  next_le : next r.sink ≤ next t.sink
  /-- A class that was live has the handles that it had. -/
  kept : ∀ n e, r.entries.get? n = some e →
    ∃ e', t.entries.get? n = some e' ∧ e'.handles = e.handles
  live : ∀ n ∈ names, ∃ e, t.entries.get? n = some e
  /-- A class that was not live is among the names, and has new handles. -/
  fresh : ∀ n e, r.entries.get? n = none → t.entries.get? n = some e →
    n ∈ names ∧ ∀ h ∈ e.handles, next r.sink ≤ h.id ∧ h.id < next t.sink
  /-- Of two classes that were not live, the one whose name comes first is ahead. -/
  order : ∀ n d, r.entries.get? n = none → r.entries.get? d = none →
    d ∈ namesBefore n names → t.Ahead d n

namespace Entered

variable {r s t : Registry σ} {names : List ClassName}

/-- Where no class is acquired, none is new. -/
theorem nil (r : Registry σ) : Entered r [] r := by
  refine ⟨le_rfl, fun n e h => ⟨e, h, rfl⟩, ?_, ?_, ?_⟩
  · intro n hn
    cases hn
  · intro n e hnone hsome
    rw [hnone] at hsome
    cases hsome
  · intro n d _ _ hd
    cases hd

/-- One class. It cannot come before another one that was not live. -/
theorem of_single {a : ClassName} (hnext : next r.sink ≤ next t.sink)
    (hkept : ∀ n e, r.entries.get? n = some e →
      ∃ e', t.entries.get? n = some e' ∧ e'.handles = e.handles)
    (hlive : ∃ e, t.entries.get? a = some e)
    (hfresh : ∀ n e, r.entries.get? n = none → t.entries.get? n = some e →
      n = a ∧ ∀ h ∈ e.handles, next r.sink ≤ h.id ∧ h.id < next t.sink) :
    Entered r [a] t := by
  refine ⟨hnext, hkept, ?_, ?_, ?_⟩
  · intro n hn
    rw [List.mem_singleton.1 hn]
    exact hlive
  · intro n e hn he
    obtain ⟨rfl, hids⟩ := hfresh n e hn he
    exact ⟨List.mem_singleton_self n, hids⟩
  · intro n d hn _ hmem e e' _ he'
    obtain ⟨rfl, -⟩ := hfresh n e' hn he'
    rw [namesBefore_cons_self] at hmem
    cases hmem

/-- A class that has been acquired is live. If it was not live before, its handles come from the
numbers that were free. -/
theorem acquire {f : Fragment} (h : r.acquire f = (.ok (), t)) : Entered r [f.className] t := by
  rcases acquire_cases r f with
    ⟨e₀, hg, heq⟩ | ⟨hg, ps, s, log, htook, -, -, heq⟩ | ⟨-, ps, s, err, -, heq⟩
  · rw [heq] at h
    cases h
    refine .of_single le_rfl (fun n e hn => ?_) ⟨_, by rw [OrderedMap.get?_set, if_pos rfl]⟩
      fun n e hn he => ?_
    · rw [OrderedMap.get?_set]
      split
      · next heq =>
        subst heq
        cases hg.symm.trans hn
        exact ⟨_, rfl, rfl⟩
      · exact ⟨e, hn, rfl⟩
    · rw [OrderedMap.get?_set] at he
      split at he
      · next heq =>
        subst heq
        cases hg.symm.trans hn
      · cases hn.symm.trans he
  · rw [heq] at h
    cases h
    refine .of_single htook.next_le (fun n e hn => ?_) ⟨_, by rw [OrderedMap.get?_set, if_pos rfl]⟩
      fun n e hn he => ?_
    · have hne : n ≠ f.className := by
        rintro rfl
        cases hg.symm.trans hn
      rw [OrderedMap.get?_set, if_neg hne]
      exact ⟨e, hn, rfl⟩
    · rw [OrderedMap.get?_set] at he
      split at he
      · next hname =>
        cases he
        refine ⟨hname, fun h hh => ?_⟩
        obtain ⟨p, hp, rfl⟩ := List.mem_map.1 hh
        exact htook.id_bounds p hp
      · cases hn.symm.trans he
  · rw [heq] at h
    cases h

/-- One class and then the others: a class that becomes live first has lower numbers than any that
becomes live later, and the names in front of it are those in front of it in the walk. -/
theorem cons {a : ClassName} (h : Entered r [a] s) (h' : Entered s names t) :
    Entered r (a :: names) t := by
  refine ⟨h.next_le.trans h'.next_le, fun n e he => ?_, fun n hn => ?_, fun n e hn he => ?_, ?_⟩
  · obtain ⟨e₁, he₁, hhandles₁⟩ := h.kept n e he
    obtain ⟨e₂, he₂, hhandles₂⟩ := h'.kept n e₁ he₁
    exact ⟨e₂, he₂, hhandles₂.trans hhandles₁⟩
  · rcases List.mem_cons.1 hn with rfl | hn
    · obtain ⟨e, he⟩ := h.live n (List.mem_singleton_self n)
      obtain ⟨e', he', -⟩ := h'.kept n e he
      exact ⟨e', he'⟩
    · exact h'.live n hn
  · cases hmid : s.entries.get? n with
    | some e₁ =>
      obtain ⟨hmem, hids⟩ := h.fresh n e₁ hn hmid
      obtain ⟨e₂, he₂, hhandles⟩ := h'.kept n e₁ hmid
      cases he₂.symm.trans he
      rw [List.mem_singleton.1 hmem, hhandles]
      refine ⟨List.mem_cons_self, fun i hi => ?_⟩
      obtain ⟨hlow, hhigh⟩ := hids i hi
      exact ⟨hlow, hhigh.trans_le h'.next_le⟩
    | none =>
      obtain ⟨hmem, hids⟩ := h'.fresh n e hmid he
      refine ⟨List.mem_cons_of_mem a hmem, fun i hi => ?_⟩
      obtain ⟨hlow, hhigh⟩ := hids i hi
      exact ⟨h.next_le.trans hlow, hhigh⟩
  · intro n d hn hd hmem e e' he he' i hi j hj
    have hne : a ≠ n := by
      rintro rfl
      rw [namesBefore_cons_self] at hmem
      cases hmem
    rw [namesBefore_cons_of_ne hne, List.mem_cons] at hmem
    have hmid : s.entries.get? n = none := by
      cases hmid : s.entries.get? n with
      | none => rfl
      | some e₁ => exact absurd (List.mem_singleton.1 (h.fresh n e₁ hn hmid).1).symm hne
    cases hmid' : s.entries.get? d with
    | some e₁ =>
      -- The class `d` is live now, and `n` is not yet.
      obtain ⟨e₂, he₂, hhandles⟩ := h'.kept d e₁ hmid'
      cases he₂.symm.trans he
      rw [hhandles] at hi
      have hlow := ((h.fresh d e₁ hd hmid').2 i hi).2
      have hhigh := ((h'.fresh n e' hmid he').2 j hj).1
      omega
    | none =>
      have hda : d ≠ a := by
        rintro rfl
        obtain ⟨e₁, he₁⟩ := h.live d (List.mem_singleton_self d)
        cases hmid'.symm.trans he₁
      exact h'.order n d hmid hmid' (hmem.resolve_left hda) e e' he he' i hi j hj

end Entered

/-- Acquiring fragments makes their classes live in this order. -/
theorem entered_acquireAll {r t : Registry σ} {fs : List Fragment}
    (h : r.acquireAll fs = (.ok (), t)) : Entered r (fs.map Fragment.className) t := by
  induction fs generalizing r with
  | nil =>
    cases h
    exact .nil _
  | cons f fs ih =>
    obtain ⟨s, hs, h⟩ := acquireAll_cons_ok.1 h
    exact .cons (.acquire hs) (ih h)

/-- The classes of an element enter in the order of the walk. -/
theorem entered_insertElement {r t : Registry σ} {e : StyleElement}
    (h : r.insertElement e = (.ok (), t)) : Entered r e.classNames t :=
  entered_acquireAll (acquireAll_of_insertElement h)

/-! ## Succession -/

/-- The registry `t` succeeds `r` after some classes with these names, if any, became live, and some
others ceased to be. -/
structure Succeeds (r : Registry σ) (names : List ClassName) (t : Registry σ) : Prop where
  kept : ∀ n e e', r.entries.get? n = some e → t.entries.get? n = some e' → e'.handles = e.handles
  fresh : ∀ n e, r.entries.get? n = none → t.entries.get? n = some e →
    n ∈ names ∧ ∀ h ∈ e.handles, next r.sink ≤ h.id
  order : ∀ n d, r.entries.get? n = none → r.entries.get? d = none →
    d ∈ namesBefore n names → t.Ahead d n

/-- What holds of the classes entered holds of a registry that comes after. -/
theorem Entered.succeeds {r t : Registry σ} {names : List ClassName} (h : Entered r names t) :
    Succeeds r names t := by
  refine ⟨fun n e e' he he' => ?_, fun n e hn he => ?_, h.order⟩
  · obtain ⟨e₁, he₁, hhandles⟩ := h.kept n e he
    cases he₁.symm.trans he'
    exact hhandles
  · obtain ⟨hmem, hids⟩ := h.fresh n e hn he
    exact ⟨hmem, fun i hi => (hids i hi).1⟩

namespace Succeeds

variable {r s t : Registry σ} {names : List ClassName} {d n : ClassName}

/-- No class became live. -/
theorem of_kept (h : ∀ n e', t.entries.get? n = some e' →
    ∃ e, r.entries.get? n = some e ∧ e'.handles = e.handles) : Succeeds r [] t := by
  refine ⟨fun n e e' he he' => ?_, fun n e' hn he' => ?_, fun n d _ _ hmem => ?_⟩
  · obtain ⟨e₁, he₁, hhandles⟩ := h n e' he'
    cases he₁.symm.trans he
    exact hhandles
  · obtain ⟨e, he, -⟩ := h n e' he'
    cases hn.symm.trans he
  · cases hmem

theorem of_entries (h : t.entries = r.entries) : Succeeds r [] t := by
  refine of_kept fun n e' he' => ⟨e', ?_, rfl⟩
  rw [← h]
  exact he'

/-- Giving up classes makes none live, and those that stay have the handles that they had. -/
theorem relinquishAll (r : Registry σ) (ns : List ClassName) :
    Succeeds r [] (r.relinquishAll ns) := by
  refine of_kept fun n e' he' => ?_
  induction ns generalizing r with
  | nil => exact ⟨e', he', rfl⟩
  | cons m ns ih =>
    obtain ⟨e, he, hhandles⟩ := ih (r.relinquish m) he'
    rw [relinquish_entries] at he
    obtain ⟨e₀, he₀, hhandles₀, -⟩ := of_get?_dropRef he
    exact ⟨e₀, he₀, hhandles.trans hhandles₀⟩

/-- Two classes that stay live keep their order. -/
theorem ahead_kept (h : Succeeds r names t) (hd : r.contains d = true) (hn : r.contains n = true)
    (hahead : r.Ahead d n) : t.Ahead d n := by
  obtain ⟨e₁, he₁⟩ := contains_iff_exists.1 hd
  obtain ⟨e₁', he₁'⟩ := contains_iff_exists.1 hn
  intro e e' he he' i hi j hj
  rw [h.kept d e₁ e he₁ he] at hi
  rw [h.kept n e₁' e' he₁' he'] at hj
  exact hahead e₁ e₁' he₁ he₁' i hi j hj

/-- A class that was live is ahead of one that was not. -/
theorem ahead_fresh (h : Succeeds r names t)
    (hlt : ∀ e, r.entries.get? d = some e → ∀ i ∈ e.handles, i.id < next r.sink)
    (hd : r.contains d = true) (hn : ¬ r.contains n = true) : t.Ahead d n := by
  obtain ⟨e₁, he₁⟩ := contains_iff_exists.1 hd
  intro e e' he he' i hi j hj
  rw [h.kept d e₁ e he₁ he] at hi
  have hlow := hlt e₁ he₁ i hi
  have hhigh := (h.fresh n e' (not_contains_iff.1 hn) he').2 j hj
  omega

/-- Of two classes that were not live, the one whose name comes first is ahead. -/
theorem ahead_order (h : Succeeds r names t) (hd : ¬ r.contains d = true)
    (hn : ¬ r.contains n = true) (hmem : d ∈ namesBefore n names) : t.Ahead d n :=
  h.order n d (not_contains_iff.1 hn) (not_contains_iff.1 hd) hmem

theorem mem_names (h : Succeeds r names t) (hn : ¬ r.contains n = true)
    (ht : t.contains n = true) : n ∈ names := by
  obtain ⟨e, he⟩ := contains_iff_exists.1 ht
  exact (h.fresh n e (not_contains_iff.1 hn) he).1

end Succeeds

end Registry

end ScopedCss
