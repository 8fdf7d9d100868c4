import ScopedCss.Proofs.Registry.Acquire
import ScopedCss.Proofs.Registry.Frame

/-!
# Undoing an insertion

A failed insertion leaves the registry as it found it, and so does one that succeeds and is given
back at once. Partial work is undone at three levels: the rules of the fragment that is refused, the
siblings in front of it, and the siblings in front of every node on the way up. Each level is an
instance of one fact: giving up the classes that were acquired, in any order, leads back to where the
acquiring began (`Recovered`), up to numbers that are used up and notices in the log. That the order
is of no account holds up to the log alone (`UpToLog`).
-/

namespace ScopedCss

namespace Registry

open LawfulSink StyleElement

variable {σ : Type}

/-! ## Registries that differ in their logs -/

/-- The registries differ in nothing but what they have reported. -/
structure UpToLog (r t : Registry σ) : Prop where
  id : t.id = r.id
  config : t.config = r.config
  entries : t.entries = r.entries
  sink : t.sink = r.sink

namespace UpToLog

variable {r s t : Registry σ}

theorem refl (r : Registry σ) : UpToLog r r := ⟨rfl, rfl, rfl, rfl⟩

theorem trans (h : UpToLog r s) (h' : UpToLog s t) : UpToLog r t :=
  ⟨h'.id.trans h.id, h'.config.trans h.config, h'.entries.trans h.entries, h'.sink.trans h.sink⟩

variable [Sink σ]

theorem relinquish (h : UpToLog r t) (n : ClassName) :
    UpToLog (r.relinquish n) (t.relinquish n) := by
  refine ⟨?_, ?_, ?_, ?_⟩
  · rw [relinquish_id, relinquish_id, h.id]
  · rw [relinquish_config, relinquish_config, h.config]
  · rw [relinquish_entries, relinquish_entries, h.entries]
  · rw [relinquish_sink, relinquish_sink, h.entries, h.sink]

theorem relinquishAll (h : UpToLog r t) (ns : List ClassName) :
    UpToLog (r.relinquishAll ns) (t.relinquishAll ns) := by
  induction ns generalizing r t with
  | nil => exact h
  | cons n ns ih => exact ih (h.relinquish n)

end UpToLog

/-! ## Registries that are back where they were -/

variable [Sink σ] [LawfulSink σ]

/-- The registry is as it was before: only numbers have been used up, and notices left. -/
structure Recovered (r t : Registry σ) : Prop where
  id : t.id = r.id
  config : t.config = r.config
  entries : t.entries = r.entries
  sink : ∃ n, next r.sink ≤ n ∧ t.sink = withNext r.sink n

namespace Recovered

variable {r s t : Registry σ}

theorem refl (r : Registry σ) : Recovered r r :=
  ⟨rfl, rfl, rfl, next r.sink, le_rfl, (withNext_next r.sink).symm⟩

theorem trans (h : Recovered r s) (h' : Recovered s t) : Recovered r t := by
  obtain ⟨n, hn, hs⟩ := h.sink
  obtain ⟨m, hm, ht⟩ := h'.sink
  refine ⟨h'.id.trans h.id, h'.config.trans h.config, h'.entries.trans h.entries, m, ?_, ?_⟩
  · rw [hs, next_withNext] at hm
    exact hn.trans hm
  · rw [ht, hs, withNext_withNext]

theorem held (h : Recovered r t) : held t.sink = held r.sink := by
  obtain ⟨n, -, hs⟩ := h.sink
  rw [hs, held_withNext]

theorem sound (h : Recovered r t) (hr : Sound r) : Sound t := by
  obtain ⟨n, hn, hs⟩ := h.sink
  refine ⟨?_, ?_⟩
  · rw [h.entries]
    exact hr.positive
  · rw [hs]
    exact hr.numbered.withNext hn

/-- What has recovered goes on alike: giving up a class on both sides leaves the one the other,
recovered. -/
theorem relinquish (h : Recovered r t) (n : ClassName) :
    Recovered (r.relinquish n) (t.relinquish n) := by
  obtain ⟨m, hm, hs⟩ := h.sink
  refine ⟨?_, ?_, ?_, m, ?_, ?_⟩
  · rw [relinquish_id, relinquish_id, h.id]
  · rw [relinquish_config, relinquish_config, h.config]
  · rw [relinquish_entries, relinquish_entries, h.entries]
  · rw [relinquish_sink, next_retractAll]
    exact hm
  · rw [relinquish_sink, relinquish_sink, h.entries, hs, retractAll_withNext]

theorem relinquishAll (h : Recovered r t) (ns : List ClassName) :
    Recovered (r.relinquishAll ns) (t.relinquishAll ns) := by
  induction ns generalizing r t with
  | nil => exact h
  | cons n ns ih => exact ih (h.relinquish n)

end Recovered

/-! ## The order of giving up -/

theorem UpToLog.recovered {r t : Registry σ} (h : UpToLog r t) : Recovered r t := by
  refine ⟨h.id, h.config, h.entries, next r.sink, le_rfl, ?_⟩
  rw [h.sink, withNext_next]

/-- Two classes can be given up in either order, and nothing but the log tells which came first. -/
theorem relinquish_comm (r : Registry σ) (n m : ClassName) :
    UpToLog ((r.relinquish n).relinquish m) ((r.relinquish m).relinquish n) := by
  by_cases e : n = m
  · rw [e]
    exact .refl _
  · have e' : m ≠ n := fun h => e h.symm
    refine ⟨by simp, by simp, ?_, ?_⟩
    · simp only [relinquish_entries]
      exact dropRef_comm r.entries m n
    · simp only [relinquish_sink, relinquish_entries]
      rw [freed_dropRef_of_ne e, freed_dropRef_of_ne e', retractAll_comm]

/-- Classes can be given up in any order. -/
theorem relinquishAll_perm {ns ms : List ClassName} (h : ns.Perm ms) (r : Registry σ) :
    UpToLog (r.relinquishAll ns) (r.relinquishAll ms) := by
  induction h generalizing r with
  | nil => exact .refl r
  | cons n _ ih => exact ih (r.relinquish n)
  | swap n m ns => exact (relinquish_comm r m n).relinquishAll ns
  | trans _ _ ih ih' => exact (ih r).trans (ih' r)

/-! ## Giving up what was acquired -/

/-- Acquiring a class and giving it up again. -/
theorem recovered_acquire_relinquish {r t : Registry σ} (hr : Sound r) {f : Fragment}
    (h : r.acquire f = (.ok (), t)) : Recovered r (t.relinquish f.className) := by
  rcases acquire_cases r f with
    ⟨e, hg, heq⟩ | ⟨hg, ps, s, log, htook, -, -, heq⟩ | ⟨hg, ps, s, err, -, heq⟩
  · rw [heq] at h
    cases h
    have hc : 0 < e.count := hr.positive _ _ hg
    have hget : (r.entries.set f.className { e with count := e.count + 1 }).get? f.className =
        some { e with count := e.count + 1 } := by rw [OrderedMap.get?_set, if_pos rfl]
    refine ⟨relinquish_id .., relinquish_config .., ?_, next r.sink, le_rfl, ?_⟩
    · rw [relinquish_entries, dropRef, hget]
      simp only [Nat.add_sub_cancel, if_pos hc]
      rw [OrderedMap.set_set]
      exact OrderedMap.set_of_get? hg
    · rw [relinquish_sink, freed, hget]
      simp only [Nat.add_sub_cancel, if_pos hc]
      exact (withNext_next r.sink).symm
  · rw [heq] at h
    cases h
    have hget : (r.entries.set f.className ⟨1, ps.map Prod.fst⟩).get? f.className =
        some ⟨1, ps.map Prod.fst⟩ := by rw [OrderedMap.get?_set, if_pos rfl]
    refine ⟨relinquish_id .., relinquish_config .., ?_, next s, htook.next_le, ?_⟩
    · rw [relinquish_entries, dropRef, hget]
      exact OrderedMap.erase_set_of_get?_none hg _
    · rw [relinquish_sink, freed, hget]
      exact htook.retractAll hr.numbered
  · rw [heq] at h
    cases h

/-- A refused class leaves nothing behind. -/
theorem recovered_of_acquire_error {r t : Registry σ} (hr : Sound r) {f : Fragment}
    {err : RegistryError} (h : r.acquire f = (.error err, t)) : Recovered r t := by
  rcases acquire_cases r f with
    ⟨e, hg, heq⟩ | ⟨hg, ps, s, log, htook, -, -, heq⟩ | ⟨hg, ps, s, err, htook, heq⟩
  · rw [heq] at h
    cases h
  · rw [heq] at h
    cases h
  · rw [heq] at h
    cases h
    exact ⟨rfl, rfl, rfl, next s, htook.next_le, htook.retractAll hr.numbered⟩

/-- Acquiring several classes and giving them up again, in the order in which they came. -/
theorem recovered_acquireAll_relinquishAll {r t : Registry σ} (hr : Sound r) {fs : List Fragment}
    (h : r.acquireAll fs = (.ok (), t)) :
    Recovered r (t.relinquishAll (fs.map Fragment.className)) := by
  induction fs generalizing r with
  | nil =>
    cases h
    exact .refl _
  | cons f fs ih =>
    obtain ⟨s, hs, h⟩ := acquireAll_cons_ok.1 h
    have hsound := hr.acquire f
    rw [hs] at hsound
    have hback : Recovered s (t.relinquishAll (fs.map Fragment.className)) := ih hsound h
    -- The class that came first is given up last instead, which leads to the same registry.
    have hlast : Recovered (t.relinquishAll (fs.map Fragment.className ++ [f.className]))
        (t.relinquishAll (f.className :: fs.map Fragment.className)) :=
      (relinquishAll_perm (List.perm_append_singleton ..) t).recovered
    rw [relinquishAll_append] at hlast
    exact ((recovered_acquire_relinquish hr hs).trans (hback.relinquish f.className)).trans hlast

theorem sound_insertElement {r t : Registry σ} (hr : Sound r) {e : StyleElement}
    (h : r.insertElement e = (.ok (), t)) : Sound t :=
  hr.acquireAll (acquireAll_of_insertElement h)

/-! ## Failed insertions -/

/-- A failed insertion gives up what it has acquired, and so leads back to where it began. -/
theorem recovered_of_insertElement_error {r t : Registry σ} (hr : Sound r) {e : StyleElement}
    {err : RegistryError} (h : r.insertElement e = (.error err, t)) : Recovered r t := by
  obtain ⟨before, f, after, s, u, names, -, hs, hu, hp, rfl⟩ := abandons_of_insertElement h
  rw [List.append_nil] at hp
  have hback : Recovered r (s.relinquishAll (before.map Fragment.className)) :=
    recovered_acquireAll_relinquishAll hr hs
  have hrefused : Recovered s u := recovered_of_acquire_error (hr.acquireAll hs) hu
  have horder := (relinquishAll_perm hp.symm s).recovered
  exact hback.trans (horder.trans (hrefused.relinquishAll names))

/-! ## Insertions that are taken back -/

/-- To give back what was issued last is to give up the classes that were acquired last. -/
theorem recovered_of_insert_release {r t : Registry σ} (hr : Sound r) {e : StyleElement}
    {reg : Registration} (h : r.insert e = (.ok reg, t)) : Recovered r (t.release reg) := by
  obtain ⟨rfl, he⟩ := insert_ok h
  have hid : t.id = r.id := by
    have hcontinues := continues_insert r e
    rw [h] at hcontinues
    exact hcontinues.id
  rw [release, if_pos hid.symm, removeElement_eq]
  exact recovered_acquireAll_relinquishAll hr (acquireAll_of_insertElement he)

/-! ## Registries stay in order -/

namespace Sound

variable {r : Registry σ}

theorem insertGlobal (hr : Sound r) (rule : StyleRule) : Sound (r.insertGlobal rule).2 := by
  have hn := hr.numbered.addGlobal rule
  rw [Registry.insertGlobal]
  split
  · next h => rw [h] at hn; exact ⟨hr.positive, hn⟩
  · next h => rw [h] at hn; split <;> exact ⟨hr.positive, hn⟩

theorem releaseGlobal (hr : Sound r) (reg : GlobalRegistration) : Sound (r.releaseGlobal reg) := by
  rw [Registry.releaseGlobal]
  split
  · split
    · exact ⟨hr.positive, hr.numbered.retract _⟩
    · exact hr
  · exact ⟨hr.positive, hr.numbered⟩

theorem operate (hr : Sound r) (op : SinkOperation) : Sound (r.operate op) :=
  ⟨hr.positive, hr.numbered.operate op⟩

end Sound

end Registry

end ScopedCss
