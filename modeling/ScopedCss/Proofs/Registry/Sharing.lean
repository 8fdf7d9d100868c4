import ScopedCss.Proofs.Registry.Counts

/-!
# Entries that are shared

A class that is live has one entry, whoever brought its rules to the sink. Whatever is inserted after that,
the entry keeps its handles and counts one more reference for each occurrence, and where all classes of an
element are live, its insertion ends well and is no concern of the sink. None of this depends on the sink.
-/

namespace ScopedCss

namespace Registry

open StyleElement

variable {σ : Type}

theorem exists_entry_of_refCount_pos {r : Registry σ} {n : ClassName} (h : 0 < r.refCount n) :
    ∃ e, r.entries.get? n = some e := by
  cases hget : r.entries.get? n with
  | none =>
    rw [refCount, hget] at h
    cases h
  | some e => exact ⟨e, rfl⟩

variable [Sink σ]

/-! ## Acquiring -/

theorem acquire_of_get? {r : Registry σ} {f : Fragment} {e : RegistryEntry}
    (h : r.entries.get? f.className = some e) : r.acquire f =
      (.ok (), { r with entries := r.entries.set f.className { e with count := e.count + 1 } }) := by
  rw [acquire, h]

/-- A live class keeps its handles when a class is acquired, and counts one reference more if it is
the one. -/
theorem get?_acquire {r t : Registry σ} {f : Fragment} {n : ClassName} {e : RegistryEntry}
    (hlive : r.entries.get? n = some e) (h : r.acquire f = (.ok (), t)) :
    t.entries.get? n = some { e with count := e.count + if f.className = n then 1 else 0 } := by
  by_cases hn : f.className = n
  · rw [← hn] at hlive
    rw [acquire_of_get? hlive] at h
    cases h
    rw [← hn, OrderedMap.get?_set, if_pos rfl, if_pos rfl]
  · obtain ⟨handles, hentries⟩ := acquire_ok_entries h
    rw [hentries, OrderedMap.get?_set, if_neg (Ne.symm hn), hlive, if_neg hn]
    rfl

/-- The entry of a live class keeps its handles. -/
theorem get?_acquireAll {r t : Registry σ} {fs : List Fragment} {n : ClassName} {e : RegistryEntry}
    (hlive : r.entries.get? n = some e) (h : r.acquireAll fs = (.ok (), t)) :
    t.entries.get? n = some { e with count := e.count + (fs.map Fragment.className).count n } := by
  induction fs generalizing r e with
  | nil =>
    cases h
    exact hlive
  | cons f fs ih =>
    obtain ⟨s, hs, h⟩ := acquireAll_cons_ok.1 h
    have hcount : ((f :: fs).map Fragment.className).count n =
        (if f.className = n then 1 else 0) + (fs.map Fragment.className).count n := by
      rw [List.map_cons, List.count_cons, Nat.add_comm]
      simp only [beq_iff_eq]
    rw [ih (get?_acquire hlive hs) h, hcount]
    simp only [Nat.add_assoc]

/-- Where all classes are live, acquiring them is no concern of the sink, and makes no entry. -/
theorem acquireAll_live {r : Registry σ} {fs : List Fragment}
    (h : ∀ f ∈ fs, 0 < r.refCount f.className) : ∃ t, r.acquireAll fs = (.ok (), t) ∧
      t.sink = r.sink ∧ t.entries.keys = r.entries.keys := by
  induction fs generalizing r with
  | nil => exact ⟨r, rfl, rfl, rfl⟩
  | cons f fs ih =>
    obtain ⟨hf, hfs⟩ := List.forall_mem_cons.1 h
    obtain ⟨s, hs, hsink, hkeys⟩ : ∃ s, r.acquire f = (.ok (), s) ∧ s.sink = r.sink ∧
        s.entries.keys = r.entries.keys := by
      obtain ⟨e, he⟩ := exists_entry_of_refCount_pos hf
      exact ⟨_, acquire_of_get? he, rfl,
        OrderedMap.keys_set_of_mem (OrderedMap.mem_keys_of_get? he) _⟩
    have hall : s.acquireAll [] = (.ok (), s) := rfl
    have hcount := refCount_acquireAll (acquireAll_cons_ok.2 ⟨s, hs, hall⟩)
    have hrest : ∀ f' ∈ fs, 0 < s.refCount f'.className := by
      intro f' hf'
      rw [hcount]
      exact Nat.lt_add_right _ (hfs f' hf')
    obtain ⟨t, ht, htsink, htkeys⟩ := ih hrest
    exact ⟨t, acquireAll_cons_ok.2 ⟨s, hs, ht⟩, htsink.trans hsink, htkeys.trans hkeys⟩

/-! ## Inserting -/

theorem refCount_insert {r t : Registry σ} {e : StyleElement} {reg : Registration}
    (h : r.insert e = (.ok reg, t)) (n : ClassName) :
    t.refCount n = r.refCount n + e.classNames.count n :=
  refCount_acquireAll (acquireAll_of_insertElement (insert_ok h).2) n

theorem live_of_insert {r t : Registry σ} {e : StyleElement} {reg : Registration}
    (h : r.insert e = (.ok reg, t)) {n : ClassName} (hn : n ∈ e.classNames) : 0 < t.refCount n := by
  rw [refCount_insert h]
  exact Nat.add_pos_right _ (List.count_pos_iff.2 hn)

theorem get?_insert {r t : Registry σ} {e : StyleElement} {reg : Registration} {n : ClassName}
    {entry : RegistryEntry} (hlive : r.entries.get? n = some entry) (h : r.insert e = (.ok reg, t)) :
    t.entries.get? n = some { entry with count := entry.count + e.occurrences n } := by
  rw [(occurrences_eq_count n).1]
  exact get?_acquireAll hlive (acquireAll_of_insertElement (insert_ok h).2)

/-- An element whose classes are all live can be inserted, and the sink hears nothing of it. -/
theorem insert_live {r : Registry σ} {e : StyleElement} (h : ∀ n ∈ e.classNames, 0 < r.refCount n) :
    ∃ t, r.insert e = (.ok ⟨r.id, e⟩, t) ∧ t.sink = r.sink ∧ t.entries.keys = r.entries.keys := by
  have hlive : ∀ f ∈ e.fragments, 0 < r.refCount f.className :=
    fun f hf => h f.className (List.mem_map_of_mem hf)
  obtain ⟨t, ht, hsink, hkeys⟩ := acquireAll_live hlive
  rcases he : r.insert e with ⟨err | reg, u⟩
  · obtain ⟨u', hu'⟩ := (abandons_of_insertElement (insert_error he)).acquireAll
    rw [ht] at hu'
    cases hu'
  · obtain ⟨rfl, hinsert⟩ := insert_ok he
    rw [acquireAll_of_insertElement hinsert] at ht
    cases ht
    exact ⟨_, rfl, hsink, hkeys⟩

end Registry

end ScopedCss
