import ScopedCss.Proofs.Registry.Rollback

/-!
# What the sink holds

Every live class is charged with the rules that the sink took for it when it became live, and the
sink holds what the live classes are charged with. Besides, it holds some rules that belong to no
class. Whatever the registry does, this goes on to be so: a class that becomes live is charged with
what the sink takes, one that is live already brings nothing, and with the last reference to a class
goes what it was charged with.

Handles are distinct, so that what is given up for one class is never a rule of another one, even if
the two have the same text.
-/

namespace ScopedCss

/-- The rule that the sink holds for a registration, if the sink has taken it. -/
def GlobalRegistration.held (reg : GlobalRegistration) : HeldRules :=
  reg.handle.toList.map fun h => (h, reg.rule)

namespace Registry

open LawfulSink StyleElement

variable {σ : Type} [Sink σ] [LawfulSink σ]

/-- The sink holds what the live classes are charged with, and `extra` besides. -/
structure Charged (charge : ClassName → HeldRules) (extra : HeldRules) (r : Registry σ) : Prop where
  sound : Sound r
  handles : ∀ n e, r.entries.get? n = some e → e.handles = (charge n).map Prod.fst
  held : (held r.sink).Perm (r.entries.keys.flatMap charge ++ extra)

/-- The sink holds, for every live class, a list of rules that `allowed` permits for the class, and
`extra` besides. -/
def Holds (allowed : ClassName → List StyleRule → Prop) (extra : HeldRules) (r : Registry σ) : Prop :=
  ∃ charge, Charged charge extra r ∧
    ∀ n ∈ r.entries.keys, allowed n ((charge n).map Prod.snd)

variable {charge : ClassName → HeldRules} {allowed : ClassName → List StyleRule → Prop}
  {extra extra' : HeldRules} {r t : Registry σ}

/-- Nothing is live, and nothing is held. -/
theorem Holds.of_empty (hentries : r.entries = OrderedMap.empty)
    (hempty : LawfulSink.held r.sink = []) : Holds allowed [] r := by
  have hnone : ∀ n e, r.entries.get? n ≠ some e := by
    intro n e he
    rw [hentries, OrderedMap.get?_empty] at he
    cases he
  have hsound : r.Sound :=
    ⟨fun n e he => absurd he (hnone n e), wellNumbered_of_held_nil hempty⟩
  refine ⟨fun _ => [], ⟨hsound, ?_, ?_⟩, ?_⟩
  · intro n e he
    exact absurd he (hnone n e)
  · rw [hempty, hentries]
    exact List.Perm.refl _
  · intro n hn
    rw [hentries] at hn
    cases hn

/-! ## Giving up a class -/

/-- Giving up a class makes no class live. -/
theorem mem_keys_of_mem_dropRef {m : OrderedMap ClassName RegistryEntry} {n n' : ClassName}
    (h : n' ∈ (dropRef m n).keys) : n' ∈ m.keys := by
  unfold dropRef at h
  split at h
  · exact h
  · next hg =>
    have hn := OrderedMap.mem_keys_of_get? hg
    split at h
    · rw [OrderedMap.keys_set_of_mem hn] at h
      exact h
    · exact (OrderedMap.keys_perm hg).mem_iff.2 (List.mem_cons_of_mem n h)

/-- Giving up a class takes what it was charged with from the sink along with its entry, if this was
the last reference, and otherwise changes nothing about any charge. -/
theorem Charged.relinquish (h : Charged charge extra r) (n : ClassName) :
    Charged charge extra (r.relinquish n) := by
  refine ⟨h.sound.relinquish n, fun m e he => ?_, ?_⟩
  · rw [relinquish_entries] at he
    obtain ⟨e', he', hhandles, -⟩ := of_get?_dropRef he
    rw [hhandles]
    exact h.handles m e' he'
  · rw [relinquish_entries, relinquish_sink]
    unfold dropRef freed
    cases hg : r.entries.get? n with
    | none => exact h.held
    | some e =>
      by_cases hc : 0 < e.count - 1
      · simp only [if_pos hc]
        rw [OrderedMap.keys_set_of_mem (OrderedMap.mem_keys_of_get? hg)]
        exact h.held
      · simp only [if_neg hc]
        rw [h.handles n e hg]
        refine h.sound.numbered.perm_retractAll (h.held.trans ?_)
        rw [← List.append_assoc]
        exact ((OrderedMap.keys_perm hg).flatMap_right charge).append_right extra

theorem Holds.relinquish (h : Holds allowed extra r) (n : ClassName) :
    Holds allowed extra (r.relinquish n) := by
  obtain ⟨charge, hcharge, hallowed⟩ := h
  refine ⟨charge, hcharge.relinquish n, fun m hm => hallowed m ?_⟩
  rw [relinquish_entries] at hm
  exact mem_keys_of_mem_dropRef hm

theorem Holds.relinquishAll (h : Holds allowed extra r) (ns : List ClassName) :
    Holds allowed extra (r.relinquishAll ns) := by
  induction ns generalizing r with
  | nil => exact h
  | cons n ns ih => exact ih (h.relinquish n)

theorem Holds.removeElement (h : Holds allowed extra r) (e : StyleElement) :
    Holds allowed extra (r.removeElement e) := by
  rw [removeElement_eq]
  exact h.relinquishAll _

/-! ## Acquiring a class -/

/-- Whatever the sink takes of the fragment is permitted for its class: in strict mode all of its
rules, in relaxed mode some. -/
def Admits (allowed : ClassName → List StyleRule → Prop) (config : RegistryConfig) (f : Fragment) :
    Prop :=
  ∀ taken : List StyleRule, taken.Sublist f.rules → (config.mode = .strict → taken = f.rules) →
    allowed f.className taken

/-- One more reference to a class that is live. -/
theorem Charged.bump (h : Charged charge extra r) {n : ClassName} {e : RegistryEntry} {k : Nat}
    (hg : r.entries.get? n = some e) (ht : Sound t)
    (hentries : t.entries = r.entries.set n { e with count := k }) (hsink : t.sink = r.sink) :
    Charged charge extra t := by
  refine ⟨ht, fun m e' he' => ?_, ?_⟩
  · rw [hentries, OrderedMap.get?_set] at he'
    split at he'
    · next hm =>
      cases he'
      exact hm ▸ h.handles n e hg
    · exact h.handles m e' he'
  · rw [hsink, hentries, OrderedMap.keys_set_of_mem (OrderedMap.mem_keys_of_get? hg)]
    exact h.held

/-- The class is charged with what the sink has taken for it. -/
def chargedWith (charge : ClassName → HeldRules) (n : ClassName) (ps : HeldRules) :
    ClassName → HeldRules :=
  fun m => if m = n then ps else charge m

theorem chargedWith_self (charge : ClassName → HeldRules) (n : ClassName) (ps : HeldRules) :
    chargedWith charge n ps n = ps := if_pos rfl

theorem chargedWith_of_mem (charge : ClassName → HeldRules) {n : ClassName} (ps : HeldRules)
    {ns : List ClassName} (hn : n ∉ ns) : ∀ m ∈ ns, chargedWith charge n ps m = charge m := by
  intro m hm
  refine if_neg fun e => hn ?_
  rw [← e]
  exact hm

/-- A class comes in with the rules that the sink has taken for it. -/
theorem Charged.enter (h : Charged charge extra r) {n : ClassName} {ps : HeldRules}
    (hnew : n ∉ r.entries.keys) (ht : Sound t)
    (hentries : t.entries = r.entries.set n ⟨1, ps.map Prod.fst⟩) (htook : Took r.sink ps t.sink) :
    Charged (chargedWith charge n ps) extra t := by
  have hother := chargedWith_of_mem charge ps hnew
  refine ⟨ht, fun m e' he' => ?_, ?_⟩
  · rw [hentries, OrderedMap.get?_set] at he'
    split at he'
    · next hm =>
      cases he'
      rw [hm, chargedWith_self]
    · rw [hother m (OrderedMap.mem_keys_of_get? he')]
      exact h.handles m e' he'
  · rw [hentries, OrderedMap.keys_set_of_notMem hnew, List.flatMap_append,
      List.flatMap_congr hother, List.flatMap_singleton, chargedWith_self, List.append_assoc]
    have hold : (ps ++ LawfulSink.held r.sink).Perm (ps ++ (r.entries.keys.flatMap charge ++ extra)) :=
      h.held.append_left ps
    exact (htook.held_perm.trans hold).trans (List.perm_append_comm_assoc ps _ extra)

/-- Acquiring a fragment keeps what a registry holds in order: a class that is new is charged with
what was taken of it, which the fragment has to admit. -/
theorem Holds.acquire (h : Holds allowed extra r) {f : Fragment}
    (hf : Admits allowed r.config f) (ht : r.acquire f = (.ok (), t)) : Holds allowed extra t := by
  have hsound := (h.choose_spec.1.sound).acquire f
  rw [ht] at hsound
  obtain ⟨charge, hcharge, hallowed⟩ := h
  rcases acquire_cases r f with
    ⟨e, hg, heq⟩ | ⟨hg, ps, s, log, htook, hsub, hall, heq⟩ | ⟨hg, ps, s, err, -, heq⟩
  · rw [heq] at ht
    cases ht
    refine ⟨charge, hcharge.bump hg hsound rfl rfl, fun m hm => hallowed m ?_⟩
    rw [OrderedMap.keys_set_of_mem (OrderedMap.mem_keys_of_get? hg)] at hm
    exact hm
  · rw [heq] at ht
    cases ht
    have hnew : f.className ∉ r.entries.keys := OrderedMap.get?_eq_none_iff.1 hg
    refine ⟨_, hcharge.enter hnew hsound rfl htook, fun m hm => ?_⟩
    rw [OrderedMap.keys_set_of_notMem hnew] at hm
    rcases List.mem_append.1 hm with hm | hm
    · rw [chargedWith_of_mem charge ps hnew m hm]
      exact hallowed m hm
    · rw [List.mem_singleton.1 hm, chargedWith_self]
      exact hf _ hsub hall
  · rw [heq] at ht
    cases ht

/-- Acquiring fragments one after the other keeps it in order, since the settings by which they are
admitted do not change. -/
theorem Holds.acquireAll (h : Holds allowed extra r) {fs : List Fragment}
    (hfs : ∀ f ∈ fs, Admits allowed r.config f) (ht : r.acquireAll fs = (.ok (), t)) :
    Holds allowed extra t := by
  induction fs generalizing r with
  | nil =>
    cases ht
    exact h
  | cons f fs ih =>
    obtain ⟨s, hs, ht⟩ := acquireAll_cons_ok.1 ht
    have hconfig := (continues_acquire r f).config
    rw [hs] at hconfig
    refine ih (h.acquire (hfs f List.mem_cons_self) hs) (fun f' hf' => ?_) ht
    rw [hconfig]
    exact hfs f' (List.mem_cons_of_mem f hf')

/-! ## Inserting an element -/

/-- What a registry holds does not depend on the next number, so one that has recovered holds what
it held. -/
theorem Holds.recovered (h : Holds allowed extra r) (ht : Recovered r t) : Holds allowed extra t := by
  obtain ⟨charge, hcharge, hallowed⟩ := h
  refine ⟨charge, ⟨ht.sound hcharge.sound, ?_, ?_⟩, ?_⟩
  · rw [ht.entries]
    exact hcharge.handles
  · rw [ht.held, ht.entries]
    exact hcharge.held
  · rw [ht.entries]
    exact hallowed

/-- Whether the insertion succeeds or fails. -/
theorem Holds.insertElement (h : Holds allowed extra r) {e : StyleElement}
    (he : ∀ f ∈ e.fragments, Admits allowed r.config f) :
    Holds allowed extra (r.insertElement e).2 := by
  rcases hs : r.insertElement e with ⟨err | ⟨⟨⟩⟩, t⟩
  · exact h.recovered (recovered_of_insertElement_error h.choose_spec.1.sound hs)
  · exact h.acquireAll he (acquireAll_of_insertElement hs)

/-! ## Rules without a class -/

/-- A global rule is taken, or refused in strict mode, or left out in relaxed mode. -/
theorem insertGlobal_cases (r : Registry σ) (rule : StyleRule) :
    (∃ h s, Sink.add r.sink rule = (.ok h, s) ∧
      r.insertGlobal rule = (.ok ⟨r.id, rule, some h⟩, { r with sink := s })) ∨
    (r.config.mode = .strict ∧ ∃ err, r.insertGlobal rule = (.error err, r)) ∨
    (r.config.mode = .relaxed ∧ ∃ log,
      r.insertGlobal rule = (.ok ⟨r.id, rule, none⟩, { r with log := log })) := by
  rcases hadd : Sink.add r.sink rule with ⟨e | h, s⟩
  · have hs : s = r.sink := add_error hadd
    subst hs
    rw [insertGlobal, addGlobal_eq, hadd]
    cases hm : r.config.mode with
    | strict => exact .inr (.inl ⟨rfl, ⟨rule, e⟩, rfl⟩)
    | relaxed => exact .inr (.inr ⟨rfl, _, rfl⟩)
  · refine .inl ⟨h, s, rfl, ?_⟩
    rw [insertGlobal, addGlobal_eq, hadd]

/-- In strict mode, a registration comes for a rule that the sink has taken. -/
theorem isSome_handle_of_strict (hr : r.config.mode = .strict) {rule : StyleRule}
    {reg : GlobalRegistration} (ht : r.insertGlobal rule = (.ok reg, t)) : reg.handle.isSome := by
  rcases insertGlobal_cases r rule with ⟨h', s, hadd, heq⟩ | ⟨-, err, heq⟩ | ⟨hm, log, heq⟩
  · rw [heq] at ht
    cases ht
    rfl
  · rw [heq] at ht
    cases ht
  · rw [hr] at hm
    cases hm

theorem Holds.perm (h : Holds allowed extra r) (hp : extra.Perm extra') : Holds allowed extra' r := by
  obtain ⟨charge, hcharge, hallowed⟩ := h
  exact ⟨charge, ⟨hcharge.sound, hcharge.handles, hcharge.held.trans (hp.append_left _)⟩, hallowed⟩

/-- Another sink, and other rules without a class. -/
theorem Holds.withSink (h : Holds allowed extra r) {s : σ} {log : List Notice}
    (hs : WellNumbered s) (hp : (LawfulSink.held s ++ extra).Perm (extra' ++ LawfulSink.held r.sink)) :
    Holds allowed extra' { r with sink := s, log := log } := by
  obtain ⟨charge, hcharge, hallowed⟩ := h
  refine ⟨charge, ⟨⟨hcharge.sound.positive, hs⟩, hcharge.handles, ?_⟩, hallowed⟩
  have hheld : (extra' ++ LawfulSink.held r.sink).Perm
      (r.entries.keys.flatMap charge ++ extra' ++ extra) :=
    ((hcharge.held.append_left extra').trans (List.perm_append_comm_assoc _ _ _)).trans
      (by rw [List.append_assoc])
  exact (List.perm_append_right_iff extra).1 (hp.trans hheld)

/-- A global rule that is inserted is held besides the others, if the sink takes it. -/
theorem Holds.insertGlobal_ok (h : Holds allowed extra r) {rule : StyleRule}
    {reg : GlobalRegistration} (ht : r.insertGlobal rule = (.ok reg, t)) :
    Holds allowed (reg.held ++ extra) t := by
  have hn := h.choose_spec.1.sound.numbered
  rcases insertGlobal_cases r rule with ⟨h', s, hadd, heq⟩ | ⟨-, err, heq⟩ | ⟨-, log, heq⟩
  · rw [heq] at ht
    cases ht
    refine h.withSink (hn.add_ok hadd) ?_
    have hp : (LawfulSink.held s ++ extra).Perm ((h', rule) :: LawfulSink.held r.sink ++ extra) :=
      (WellNumbered.held_add hadd).append_right extra
    exact hp.trans ((List.perm_append_comm).cons (h', rule))
  · rw [heq] at ht
    cases ht
  · rw [heq] at ht
    cases ht
    exact h.withSink hn List.perm_append_comm

/-- A rule that is refused and belongs to no class leaves everything in order. -/
theorem Holds.insertGlobal_error (h : Holds allowed extra r) {rule : StyleRule}
    {err : RegistryError} (ht : r.insertGlobal rule = (.error err, t)) : Holds allowed extra t := by
  rcases insertGlobal_cases r rule with ⟨h', s, hadd, heq⟩ | ⟨-, err, heq⟩ | ⟨-, log, heq⟩
  · rw [heq] at ht
    cases ht
  · rw [heq] at ht
    cases ht
    exact h
  · rw [heq] at ht
    cases ht

/-- A global rule that is refused leaves the sink as it was. -/
theorem insertGlobal_error_held {rule : StyleRule} {err : RegistryError}
    (ht : r.insertGlobal rule = (.error err, t)) :
    LawfulSink.held t.sink = LawfulSink.held r.sink := by
  rcases insertGlobal_cases r rule with ⟨h', s, hadd, heq⟩ | ⟨-, err, heq⟩ | ⟨-, log, heq⟩
  · rw [heq] at ht
    cases ht
  · rw [heq] at ht
    cases ht
    rfl
  · rw [heq] at ht
    cases ht

/-- With the registration of a global rule goes the rule. -/
theorem Holds.releaseGlobal (h : Holds allowed extra r) {reg : GlobalRegistration}
    (hreg : reg.registry = r.id) (hp : extra.Perm (reg.held ++ extra')) :
    Holds allowed extra' (r.releaseGlobal reg) := by
  obtain ⟨id, rule, handle⟩ := reg
  obtain ⟨charge, hcharge, hallowed⟩ := h
  rw [Registry.releaseGlobal, if_pos hreg]
  cases handle with
  | none =>
    have hheld := hcharge.held.trans (hp.append_left _)
    exact ⟨charge, ⟨hcharge.sound, hcharge.handles, hheld⟩, hallowed⟩
  | some h =>
    have hn := hcharge.sound.numbered
    refine ⟨charge, ⟨⟨hcharge.sound.positive, hn.retract h⟩, hcharge.handles, ?_⟩, hallowed⟩
    show (LawfulSink.held (Sink.retract r.sink h)).Perm (r.entries.keys.flatMap charge ++ extra')
    rw [held_retract]
    exact HeldRules.perm_retract hn.nodup
      ((hcharge.held.trans (hp.append_left _)).trans List.perm_middle)

/-- Operating the sink without clearing it. -/
theorem Holds.operate (h : Holds allowed extra r) {op : SinkOperation} (hop : op ≠ .clear) :
    Holds allowed extra (r.operate op) := by
  refine h.withSink (h.choose_spec.1.sound.numbered.operate op) ?_
  rcases held_operate op r.sink with hh | ⟨hc, -⟩
  · rw [hh]
    exact List.perm_append_comm
  · exact absurd hc hop

theorem Holds.note (h : Holds allowed extra r) (notice : Notice) :
    Holds allowed extra (r.note notice) := by
  exact h.withSink h.choose_spec.1.sound.numbered List.perm_append_comm

/-- What the sink holds for the classes has the handles in the entries. -/
theorem Holds.exists_perm (h : Holds allowed extra r) : ∃ ofClasses : HeldRules,
    ofClasses.map Prod.fst = r.entries.values.flatMap RegistryEntry.handles ∧
      (LawfulSink.held r.sink).Perm (ofClasses ++ extra) := by
  obtain ⟨charge, hcharge, -⟩ := h
  refine ⟨r.entries.keys.flatMap charge, ?_, hcharge.held⟩
  unfold OrderedMap.keys OrderedMap.values Pairs.keys
  rw [List.map_flatMap, List.flatMap_map, List.flatMap_map]
  refine List.flatMap_congr fun p hp => ?_
  exact (hcharge.handles p.1 p.2 (OrderedMap.get?_eq_some_iff.2 hp)).symm

end Registry

end ScopedCss
