import ScopedCss.Proofs.Client.Ledger
import ScopedCss.Proofs.Registry.Rollback

/-!
# Undone insertions over histories

Whatever a client has done before, an insertion that fails leaves the registry as it was: the same
entries, and a sink that differs in nothing but the number of the next handle. So does an insertion
that succeeds, once its registration is given back.
-/

namespace ScopedCss

namespace Client

open LawfulSink

variable {σ : Type} [Sink σ] [LawfulSink σ]

/-- A change leaves the registry in order. -/
theorem Change.sound {k : Nat} {r t : Registry σ} {l l' : Ledger} {a : ClientAction}
    (h : Change k r l a t l') (hr : r.Sound) : t.Sound := by
  cases h with
  | inserted h => exact Registry.sound_insertElement hr h
  | insertFailed h => exact (Registry.recovered_of_insertElement_error hr h).sound hr
  | released _ =>
    rw [Registry.removeElement_eq]
    exact hr.relinquishAll _
  | @insertedGlobal rule n reg t h =>
    have ht := hr.insertGlobal rule
    rw [h] at ht
    exact ht
  | @insertGlobalFailed rule err t h =>
    have ht := hr.insertGlobal rule
    rw [h] at ht
    exact ht
  | releasedGlobal _ _ => exact hr.releaseGlobal _
  | operated => exact hr.operate _
  | noted _ => exact ⟨hr.positive, hr.numbered⟩
  | idle => exact hr

theorem Fresh.sound {c : Client σ} (hc : c.Fresh) (hs : ∀ r ∈ c.registries, WellNumbered r.sink)
    {k : Nat} {r : Registry σ} (hr : c.registries[k]? = some r) : r.Sound := by
  have hm := List.mem_of_getElem? hr
  refine ⟨fun n e he => ?_, hs r hm⟩
  rw [hc.entries_empty r hm, OrderedMap.get?_empty] at he
  cases he

/-- Every registry that a history leads to is sound. -/
theorem sound_run {c : Client σ} (hc : c.Fresh) (hs : ∀ r ∈ c.registries, WellNumbered r.sink)
    (actions : List ClientAction) {k : Nat} {r : Registry σ}
    (hr : (c.run actions).registries[k]? = some r) : r.Sound := by
  rw [← audit_actions c k] at hr
  refine (audit_change (P := fun r _ => r.Sound) hc (fun r hr => hc.sound hs hr)
    (fun a _ r l t l' hr hchange => hchange.sound hr) (fun change hm => ?_) hr).1
  obtain ⟨a, -, h⟩ := List.mem_map.1 hm
  cases h

/-- Strict insertion is exact about failure. After any history, if an insertion fails, the registry
has the entries it had, with the same counts and handles, and the sink holds the same rules under
the same handles in the same order; nothing of the sink but its next number may have changed. -/
theorem insert_error_restores {c : Client σ} (hc : c.Fresh)
    (hsinks : ∀ r ∈ c.registries, WellNumbered r.sink) (actions : List ClientAction) {k : Nat}
    {r t : Registry σ} (hr : (c.run actions).registries[k]? = some r) {e : StyleElement}
    {err : RegistryError} (h : r.insert e = (.error err, t)) :
    t.entries = r.entries ∧ held t.sink = held r.sink ∧
      ∃ n, next r.sink ≤ n ∧ t.sink = withNext r.sink n := by
  have hsound : r.Sound := sound_run hc hsinks actions hr
  have hback := Registry.recovered_of_insertElement_error hsound (Registry.insert_error h)
  exact ⟨hback.entries, hback.held, hback.sink⟩

/-- A sink that refuses a text, and an insertion that fails at its last rule: one of its classes is
live before, and occurs twice in the tree. -/
theorem insert_error_restores_refused :
    let c : Client SinkChoice := .ofSinks ⟨.strict⟩ [.fastidious (.empty "b")]
    let live : StyleElement := .node [] (some ⟨⟨"L", by decide⟩, [⟨"l"⟩]⟩)
    let fresh : StyleElement := .node [live] (some ⟨⟨"F", by decide⟩, [⟨"f"⟩]⟩)
    let e : StyleElement := .node [live, fresh] (some ⟨⟨"E", by decide⟩, [⟨"e"⟩, ⟨"b"⟩]⟩)
    ∃ r t, (c.run [.insert 0 live]).registries[0]? = some r ∧
      r.insert e = (.error ⟨⟨"b"⟩, .rejected ⟨"b"⟩ .unwanted⟩, t) ∧
      t.entries = r.entries ∧ held t.sink = held r.sink ∧
      ∃ n, next r.sink ≤ n ∧ t.sink = withNext r.sink n := by
  intro c live fresh e
  have hc : c.Fresh := fresh_ofSinks ⟨.strict⟩ [SinkChoice.fastidious (.empty "b")]
  have hsinks : ∀ r ∈ c.registries, WellNumbered r.sink := by
    intro r hr
    obtain rfl := List.mem_singleton.1 hr
    exact wellNumbered_of_held_nil rfl
  obtain ⟨r, hr, hfail⟩ : ∃ r, (c.run [.insert 0 live]).registries[0]? = some r ∧
      (r.insert e).1 = .error ⟨⟨"b"⟩, .rejected ⟨"b"⟩ .unwanted⟩ := ⟨_, rfl, rfl⟩
  have h : r.insert e = (.error ⟨⟨"b"⟩, .rejected ⟨"b"⟩ .unwanted⟩, (r.insert e).2) := by
    rw [← hfail]
  exact ⟨r, _, hr, h, insert_error_restores hc hsinks [.insert 0 live] hr h⟩

/-- Giving back a registration as soon as it is issued undoes the insertion, in either mode. After any
history, the registry has the entries it had, with the same counts and handles, and the sink holds
the same rules under the same handles in the same order; nothing of the sink but its next number may
have changed. -/
theorem release_undoes_insert {c : Client σ} (hc : c.Fresh)
    (hsinks : ∀ r ∈ c.registries, WellNumbered r.sink) (actions : List ClientAction) {k : Nat}
    {r t : Registry σ} (hr : (c.run actions).registries[k]? = some r) {e : StyleElement}
    {reg : Registration} (h : r.insert e = (.ok reg, t)) :
    (t.release reg).entries = r.entries ∧ held (t.release reg).sink = held r.sink ∧
      ∃ n, next r.sink ≤ n ∧ (t.release reg).sink = withNext r.sink n := by
  have hsound : r.Sound := sound_run hc hsinks actions hr
  have hback := Registry.recovered_of_insert_release hsound h
  exact ⟨hback.entries, hback.held, hback.sink⟩

/-- An insertion that is accepted in part: of the three classes of the tree one is live before and
occurs twice, and one has a rule that the sink refuses. -/
theorem release_undoes_insert_partial :
    let c : Client SinkChoice := .ofSinks ⟨.relaxed⟩ [.fastidious (.empty "b")]
    let live : StyleElement := .node [] (some ⟨⟨"L", by decide⟩, [⟨"l"⟩]⟩)
    let fresh : StyleElement := .node [live] (some ⟨⟨"F", by decide⟩, [⟨"f"⟩]⟩)
    let e : StyleElement := .node [live, fresh] (some ⟨⟨"E", by decide⟩, [⟨"e"⟩, ⟨"b"⟩, ⟨"d"⟩]⟩)
    ∃ r t, (c.run [.insert 0 live]).registries[0]? = some r ∧ r.insert e = (.ok ⟨r.id, e⟩, t) ∧
      (t.release ⟨r.id, e⟩).entries = r.entries ∧
      held (t.release ⟨r.id, e⟩).sink = held r.sink ∧
      ∃ n, next r.sink ≤ n ∧ (t.release ⟨r.id, e⟩).sink = withNext r.sink n := by
  intro c live fresh e
  have hc : c.Fresh := fresh_ofSinks ⟨.relaxed⟩ [SinkChoice.fastidious (.empty "b")]
  have hsinks : ∀ r ∈ c.registries, WellNumbered r.sink := by
    intro r hr
    obtain rfl := List.mem_singleton.1 hr
    exact wellNumbered_of_held_nil rfl
  obtain ⟨r, hr, hinserted⟩ : ∃ r, (c.run [.insert 0 live]).registries[0]? = some r ∧
      (r.insert e).1 = .ok ⟨r.id, e⟩ := ⟨_, rfl, rfl⟩
  have h : r.insert e = (.ok ⟨r.id, e⟩, (r.insert e).2) := by
    rw [← hinserted]
  exact ⟨r, _, hr, h, release_undoes_insert hc hsinks [.insert 0 live] hr h⟩

end Client

end ScopedCss
