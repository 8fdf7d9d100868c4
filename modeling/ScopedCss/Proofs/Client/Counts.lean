import ScopedCss.Proofs.Client.Ledger
import ScopedCss.Proofs.Registry.Counts
import ScopedCss.Sink.Choice

/-!
# Exact counts over histories

The count of a class is the number of its occurrences in the elements that are registered: in those
of the registrations that the registry has issued and not got back. This holds in either mode and
whatever the sink does, or whatever is done to it past the registry, since the sink has no part in
the counting.
-/

namespace ScopedCss

namespace Client

open StyleElement

variable {σ : Type}

/-- Of the names that are tallied, those of an outstanding registration can be taken to the front. -/
theorem tallies_released {r : Registry σ} {l : Ledger} (hr : r.Tallies (classNamesOfAll l.elements))
    {n : Nat} {reg : Registration} {rest : List (Nat × Registration)}
    (h : l.registrations.Perm ((n, reg) :: rest)) :
    r.Tallies (reg.element.classNames ++
      classNamesOfAll ({ l with registrations := rest } : Ledger).elements) := by
  have hp : l.elements.Perm (reg.element :: ({ l with registrations := rest } : Ledger).elements) :=
    h.map fun p : Nat × Registration => p.2.element
  rw [← classNamesOfAll_cons]
  exact hr.perm (classNamesOfAll_perm hp)

variable [Sink σ]

/-- The registry tallies the names of the elements in its ledger, and goes on to do so. -/
theorem Change.tallies {k : Nat} {r t : Registry σ} {l l' : Ledger} {a : ClientAction}
    (h : Change k r l a t l') (hr : r.Tallies (classNamesOfAll l.elements)) :
    t.Tallies (classNamesOfAll l'.elements) := by
  cases h with
  | @inserted e n t h =>
    have ht := (hr.insertElement e).2
    rw [h] at ht
    have hp : (e :: l.elements).Perm (l.elements ++ [e]) :=
      (List.perm_append_singleton e l.elements).symm
    have hnames : (e.classNames ++ classNamesOfAll l.elements).Perm
        (classNamesOfAll (l.elements ++ [e])) := by
      rw [← classNamesOfAll_cons]
      exact classNamesOfAll_perm hp
    rw [Ledger.elements, List.map_append]
    exact ht.perm hnames
  | @insertFailed e err t h =>
    have ht := (hr.insertElement e).2
    rw [h] at ht
    exact ht
  | released h => exact (tallies_released hr h).removeElement.2
  | @insertedGlobal rule n reg t h =>
    have ht := Registry.insertGlobal_entries r rule
    rw [h] at ht
    exact hr.of_entries ht
  | @insertGlobalFailed rule err t h =>
    have ht := Registry.insertGlobal_entries r rule
    rw [h] at ht
    exact hr.of_entries ht
  | @releasedGlobal n reg rest _ _ => exact hr.of_entries (Registry.releaseGlobal_entries r reg)
  | operated => exact hr.of_entries rfl
  | noted _ => exact hr.of_entries rfl
  | idle => exact hr

/-- After any history of any client, and whatever happens to the sinks, a class is counted once for
every occurrence in an element that is registered, and has an entry if and only if there is one.
So an insertion that is undone, and a release of what the client still has, give up references that
exist: the walks that check this never stop. -/
theorem refCount_eq_occurrences {c : Client σ} (hc : c.Fresh) (k : Nat)
    (events : List (ClientEvent σ)) {r : Registry σ}
    (hr : (c.audit k events).1.registries[k]? = some r) :
    (∀ n, r.refCount n = occurrencesInAll n (c.audit k events).2.elements ∧
      (r.contains n = true ↔ 1 ≤ occurrencesInAll n (c.audit k events).2.elements)) ∧
    (∀ e, r.insertElement? e = some (r.insertElement e)) ∧
    ∀ (i : Nat) (reg : Registration), (c.audit k events).1.registrations[i]? = some (some reg) →
      r.release? reg = some (r.release reg) := by
  obtain ⟨htallies, hbalanced⟩ := audit_change
    (P := fun r l => r.Tallies (classNamesOfAll l.elements)) hc
    (fun r hr => .of_empty (hc.entries_empty r (List.mem_of_getElem? hr)))
    (fun a _ r l t l' h hchange => hchange.tallies h) (fun _ _ r l h => h.of_entries rfl) hr
  refine ⟨fun n => ?_, fun e => (htallies.insertElement e).1, fun i reg hi => ?_⟩
  · rw [(occurrences_eq_count n).2, htallies.refCount_eq, htallies.contains_iff,
      Nat.one_le_iff_ne_zero, ← Nat.pos_iff_ne_zero, List.count_pos_iff]
    exact ⟨rfl, Iff.rfl⟩
  · rw [Registry.release?, Registry.release]
    by_cases hreg : reg.registry = r.id
    · rw [if_pos hreg, if_pos hreg]
      have hmem := hbalanced.registrations.outstanding i reg hi hreg
      obtain ⟨before, after, hsplit⟩ := List.append_of_mem hmem
      have hp : (c.audit k events).2.elements.Perm
          (reg.element :: (before ++ after).map fun p => p.2.element) := by
        rw [Ledger.elements, hsplit]
        exact (List.perm_middle (a := (i, reg))).map _
      have htallies' := htallies.perm (classNamesOfAll_perm hp)
      rw [classNamesOfAll_cons] at htallies'
      exact htallies'.removeElement.1
    · rw [if_neg hreg, if_neg hreg]

/-- Two registries over a sink that refuses a text. The element owns one class on three paths; an
insertion fails and is undone, and a registration is wasted on the other registry. -/
theorem refCount_eq_occurrences_diamond :
    let sink : SinkChoice := .fastidious (.empty "b")
    let c : Client SinkChoice := .ofSinks ⟨.strict⟩ [sink, sink]
    let base : StyleElement := .node [] (some ⟨⟨"B", by decide⟩, [⟨"x"⟩]⟩)
    let diamond : StyleElement := .node [.node [base] none, base, base] none
    let bad : StyleElement := .node [base] (some ⟨⟨"D", by decide⟩, [⟨"b"⟩]⟩)
    let events : List (ClientEvent SinkChoice) :=
      [.action (.insert 0 diamond), .action (.insert 0 bad), .action (.insert 0 base),
        .action (.release 1 2), .tamper 0 fun _ => sink]
    ∃ r, (c.audit 0 events).1.registries[0]? = some r ∧ r.refCount ⟨"B", by decide⟩ = 4 ∧
      ∀ n, r.refCount n = occurrencesInAll n (c.audit 0 events).2.elements := by
  intro sink c base diamond bad events
  have hc : c.Fresh := fresh_ofSinks ⟨.strict⟩ [sink, sink]
  have hmap : ((c.audit 0 events).1.registries[0]?).map
      (fun r => r.refCount ⟨"B", by decide⟩) = some 4 := by decide +kernel
  obtain ⟨r, hr, hcount⟩ := Option.map_eq_some_iff.1 hmap
  exact ⟨r, hr, hcount, fun n => ((refCount_eq_occurrences hc 0 events hr).1 n).1⟩

end Client

end ScopedCss
