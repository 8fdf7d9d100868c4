import Mathlib.Data.List.Induction
import ScopedCss.Proofs.Client.Styling
import ScopedCss.Proofs.Registry.Moves

/-!
# Calls over histories

Here the sinks of a client are recorded, and the laws are about the calls in the record of one
registry: what an operation asks of the sink, at any moment of any history (`Disciplined`), and what
this amounts to over the whole of it.

The custody of the handles is what carries this over: a handle is had by one entry or by one global
registration, until it is given back. The sink may be cleared at any time; the handles of the rules
that are dropped then stay where they are, and hit nothing when they are given back later.
-/

namespace ScopedCss

namespace Client

section Histories

variable {σ : Type} [Sink σ]

theorem run_concat (c : Client σ) (actions : List ClientAction) (a : ClientAction) :
    c.run (actions ++ [a]) = ((c.run actions).step a).2 := List.foldl_concat ..

theorem ledger_concat (c : Client σ) (k : Nat) (actions : List ClientAction) (a : ClientAction) :
    c.ledger k (actions ++ [a]) = (c.ledger k actions).record k a ((c.run actions).step a).1 := by
  rw [ledger, audit, List.map_append, List.foldl_append, ← audit_actions c k]
  rfl

/-- Induction over the actions of a client, for laws about a registry and its ledger that speak of
the actions as well. -/
theorem run_change {c : Client σ} (hc : c.Fresh) {k : Nat} {r₀ : Registry σ}
    (hr₀ : c.registries[k]? = some r₀) {P : List ClientAction → Registry σ → Ledger → Prop}
    (hinit : P [] r₀ .empty)
    (hchange : ∀ actions a r l t l', P actions r l → Change k r l a t l' →
      (c.run (actions ++ [a])).registries[k]? = some t → P (actions ++ [a]) t l')
    (actions : List ClientAction) {r : Registry σ}
    (hr : (c.run actions).registries[k]? = some r) :
    P actions r (c.ledger k actions) ∧
      Balanced r.id (c.run actions).registrations (c.run actions).globals (c.ledger k actions) := by
  suffices h : (c.run actions).Distinct ∧ ∃ t, (c.run actions).registries[k]? = some t ∧
      P actions t (c.ledger k actions) ∧
      Balanced t.id (c.run actions).registrations (c.run actions).globals
        (c.ledger k actions) by
    obtain ⟨-, t, ht, hP⟩ := h
    cases ht.symm.trans hr
    exact hP
  clear hr
  induction actions using List.reverseRecOn with
  | nil =>
    refine ⟨hc.ids_nodup, r₀, hr₀, hinit, ?_, ?_⟩
    · show Agrees _ _ c.registrations _
      rw [hc.registrations_nil]
      exact .nil
    · show Agrees _ _ c.globals _
      rw [hc.globals_nil]
      exact .nil
  | append_singleton actions a ih =>
    obtain ⟨hd, s, hs, hP, hl⟩ := ih
    obtain ⟨hd', t, ht, -, hturn⟩ := step_turn hd hs a
    obtain ⟨hchanged, hl'⟩ := hturn.change hl
    have ht' : (c.run (actions ++ [a])).registries[k]? = some t := by rw [run_concat, ht]
    have hP' := hchange actions a s _ t _ hP hchanged ht'
    rw [run_concat, ledger_concat]
    exact ⟨hd', t, ht, hP', hl'⟩

end Histories

end Client

/-- The handles of the outstanding global registrations. -/
def Ledger.handles (l : Ledger) : List Handle := l.globals.flatMap fun p => p.2.handle.toList

namespace Client

open LawfulSink StyleElement

variable {σ : Type} [Sink σ] [LawfulSink σ]

/-! ## The last clearing -/

/-- How many calls there have been on the sink of registry `k` when an action has led to the client,
if the sink has been cleared by it. A sink that does not know this operation goes on holding its
rules, and has not been cleared: `n` stays as it is. -/
def markClear (k n : Nat) (a : ClientAction) (c : Client (Recorded σ)) : Nat :=
  match c.registries[k]? with
  | none => n
  | some r => if a = .operate k .clear ∧ held r.sink.sink = [] then r.sink.calls.length else n

/-- How many calls there have been on the sink of registry `k` until it was cleared for the last time
in a history; `n`, if it never was. -/
def clearMark (k n : Nat) (c : Client (Recorded σ)) : List ClientAction → Nat
  | [] => n
  | a :: actions => clearMark k (markClear k n a (c.step a).2) (c.step a).2 actions

theorem clearMark_concat (k n : Nat) (c : Client (Recorded σ)) (actions : List ClientAction)
    (a : ClientAction) :
    clearMark k n c (actions ++ [a]) =
      markClear k (clearMark k n c actions) a (c.run (actions ++ [a])) := by
  induction actions generalizing n c with
  | nil => rfl
  | cons b actions ih => exact ih _ (c.step b).2

/-! ## The account of the handles -/

/-- A registry, its ledger, and the calls on its sink up to the last time that it was cleared, and
since then. -/
structure Kept (earlier since : List SinkCall) (r : Registry (Recorded σ)) (l : Ledger) : Prop where
  calls : r.sink.calls = earlier ++ since
  tallies : r.Tallies (classNamesOfAll l.elements)
  custody : Custody (earlier ++ since) (handlesOf r.entries ++ l.handles)
  faithful : Faithful earlier since r.sink.sink

namespace Kept

variable {earlier since cs : List SinkCall} {r t : Registry (Recorded σ)} {l l' : Ledger}

theorem start (hcalls : r.sink.calls = []) (hentries : r.entries = OrderedMap.empty)
    (hempty : held r.sink.sink = []) : Kept [] [] r .empty := by
  refine ⟨hcalls, .of_empty hentries, ?_, .nil hempty⟩
  rw [hentries]
  exact .nil

theorem cleared (h : Kept earlier since r l) (hempty : held r.sink.sink = []) :
    Kept (earlier ++ since) [] r l := by
  refine ⟨?_, h.tallies, ?_, h.faithful.cleared rfl hempty⟩
  · rw [List.append_nil]
    exact h.calls
  · rw [List.append_nil]
    exact h.custody

/-- The sink serves more calls, and the custody of the handles is kept. -/
theorem serves (h : Kept earlier since r l) (hserves : Serves r.sink cs t.sink)
    (htallies : t.Tallies (classNamesOfAll l'.elements))
    (hcustody : Custody (earlier ++ since ++ cs) (handlesOf t.entries ++ l'.handles)) :
    Kept earlier (since ++ cs) t l' := by
  obtain ⟨hcalls, hinner⟩ := hserves.recorded
  refine ⟨?_, htallies, ?_, h.faithful.serves hinner hcustody.backed⟩
  · rw [hcalls, h.calls, List.append_assoc]
  · rw [← List.append_assoc]
    exact hcustody

theorem does (h : Kept earlier since r l) {ms : List Move} (hdoes : r.Does t ms)
    (htallies : t.Tallies (classNamesOfAll l'.elements)) (hglobals : l'.globals = l.globals) :
    Kept earlier (since ++ ms.flatMap Move.calls) t l' := by
  refine h.serves hdoes.serves htallies ?_
  rw [Ledger.handles, hglobals]
  exact hdoes.moves.custody h.custody

end Kept

/-- A change only asks of the sink what keeps the account, and the account begins anew if the sink is
cleared. -/
theorem Change.kept {k : Nat} {r t : Registry (Recorded σ)} {l l' : Ledger} {a : ClientAction}
    (h : Change k r l a t l') {earlier since : List SinkCall} (hr : Kept earlier since r l) :
    (∃ cs, Kept earlier (since ++ cs) t l') ∨
      a = .operate k .clear ∧ held t.sink.sink = [] ∧ Kept (earlier ++ since) [] t l' := by
  have htallies := h.tallies hr.tallies
  cases h with
  | @inserted e n t h | @insertFailed e err t h =>
    obtain ⟨ms, -, hdoes⟩ := Registry.insertElement_does hr.tallies e
    rw [h] at hdoes
    exact .inl ⟨_, hr.does hdoes htallies rfl⟩
  | @released n reg rest h =>
    obtain ⟨ms, -, hdoes⟩ := Registry.relinquishAll_does (tallies_released hr.tallies h)
    rw [← Registry.removeElement_eq] at hdoes
    exact .inl ⟨_, hr.does hdoes htallies rfl⟩
  | @insertedGlobal rule n reg t h =>
    obtain ⟨handle, hserves, hok, -⟩ := Registry.insertGlobal_serves r rule
    have hentries := Registry.insertGlobal_entries r rule
    rw [h] at hserves hok hentries
    refine .inl ⟨_, hr.serves hserves htallies ?_⟩
    rw [hentries, Ledger.handles, List.flatMap_append, List.flatMap_singleton, hok reg rfl,
      ← List.append_assoc]
    exact hr.custody.offerGlobal handle rule
  | @insertGlobalFailed rule err t h =>
    obtain ⟨handle, hserves, -, herr⟩ := Registry.insertGlobal_serves r rule
    have hentries := Registry.insertGlobal_entries r rule
    rw [h] at hserves herr hentries
    refine .inl ⟨_, hr.serves hserves htallies ?_⟩
    have hoffered := hr.custody.offerGlobal handle rule
    rw [herr err rfl, Option.toList_none, List.append_nil] at hoffered
    rw [hentries, herr err rfl]
    exact hoffered
  | @releasedGlobal n reg rest hreg h =>
    refine .inl ⟨_, hr.serves (Registry.releaseGlobal_serves r reg) htallies ?_⟩
    have hp : l.handles.Perm (reg.handle.toList ++ ({ l with globals := rest } : Ledger).handles) :=
      h.flatMap_right fun p : Nat × GlobalRegistration => p.2.handle.toList
    rw [Registry.releaseGlobal_entries, if_pos hreg]
    refine hr.custody.giveBack ((hp.append_left _).trans ?_)
    exact List.perm_append_comm_assoc _ _ _
  | @operated op =>
    have hnext := next_operate op r.sink.sink
    rcases held_operate op r.sink.sink with hheld | ⟨rfl, hheld⟩
    · refine .inl ⟨[], ?_⟩
      rw [List.append_nil]
      exact ⟨hr.calls, htallies, hr.custody, hr.faithful.of_held_eq hnext hheld⟩
    · -- The handles of the rules that are dropped stay with their owners.
      refine .inr ⟨rfl, hheld, ?_, htallies, ?_, hr.faithful.cleared hnext hheld⟩
      · rw [List.append_nil]
        exact hr.calls
      · rw [List.append_nil]
        exact hr.custody
  | noted notice =>
    refine .inl ⟨[], ?_⟩
    rw [List.append_nil]
    exact ⟨hr.calls, htallies, hr.custody, hr.faithful⟩
  | idle =>
    refine .inl ⟨[], ?_⟩
    rw [List.append_nil]
    exact hr

/-- What holds of a registry, its ledger and the calls on its sink after a history. -/
theorem kept_run {c : Client (Recorded σ)} (hc : c.Fresh) {k : Nat} {r₀ : Registry (Recorded σ)}
    (hr₀ : c.registries[k]? = some r₀) (hcalls : r₀.sink.calls = [])
    (hempty : held r₀.sink.sink = []) (actions : List ClientAction) {r : Registry (Recorded σ)}
    (hr : (c.run actions).registries[k]? = some r) :
    (∃ earlier since, earlier.length = clearMark k 0 c actions ∧
      Kept earlier since r (c.ledger k actions)) ∧
      Balanced r.id (c.run actions).registrations (c.run actions).globals (c.ledger k actions) := by
  refine run_change (P := fun actions r l => ∃ earlier since : List SinkCall,
    earlier.length = clearMark k 0 c actions ∧ Kept earlier since r l) hc hr₀ ?_ ?_ actions hr
  · have hentries := hc.entries_empty r₀ (List.mem_of_getElem? hr₀)
    exact ⟨[], [], rfl, .start hcalls hentries hempty⟩
  · rintro actions a r l t l' ⟨earlier, since, hlen, hkept⟩ hchange ht
    rw [clearMark_concat, markClear, ht]
    simp only
    rcases hchange.kept hkept with ⟨cs, hkept'⟩ | ⟨ha, hheld, hkept'⟩
    · split
      · next hclear =>
        refine ⟨_, [], ?_, hkept'.cleared hclear.2⟩
        rw [hkept'.calls]
      · exact ⟨earlier, since ++ cs, hlen, hkept'⟩
    · rw [if_pos ⟨ha, hheld⟩]
      refine ⟨earlier ++ since, [], ?_, hkept'⟩
      rw [hkept'.calls, List.append_nil]

/-! ## The discipline -/

/-- What a registry asks of its sink, whatever the client does next. -/
structure Disciplined (c : Client (Recorded σ)) (r : Registry (Recorded σ)) : Prop where
  /-- An insertion goes through the fragments in order and makes a move for each. -/
  insert (e : StyleElement) : ∃ ms, Registry.Inserts e.fragments ms (r.insert e).1 ∧
    Moves r.config.mode r.entries ms (r.insert e).2.entries ∧
    (r.insert e).2.sink.calls = r.sink.calls ++ ms.flatMap Move.calls
  /-- A release does so for the classes of the element; one that another registry issued asks for
  nothing. -/
  release (n : Nat) (reg : Registration) (h : c.registrations[n]? = some (some reg)) :
    ∃ ms : List Move, ms.map Move.relinquished =
        (if reg.registry = r.id then reg.element.classNames else []).map some ∧
      Moves r.config.mode r.entries ms (r.release reg).entries ∧
      (r.release reg).sink.calls = r.sink.calls ++ ms.flatMap Move.calls
  /-- A global rule is offered once. -/
  insertGlobal (rule : StyleRule) : ∃ handle,
    (r.insertGlobal rule).2.sink.calls = r.sink.calls ++ [.addGlobal handle rule] ∧
    (∀ reg, (r.insertGlobal rule).1 = .ok reg → reg.handle = handle) ∧
    ∀ err, (r.insertGlobal rule).1 = .error err → handle = none
  /-- The handle of a global rule is given back with its registration. -/
  releaseGlobal (n : Nat) (reg : GlobalRegistration) (h : c.globals[n]? = some (some reg)) :
    (r.releaseGlobal reg).sink.calls =
      r.sink.calls ++ (if reg.registry = r.id then reg.handle.toList else []).map .retract
  /-- Nothing is asked for an element whose classes are live already. -/
  insert_live (e : StyleElement) (h : ∀ n ∈ e.classNames, 0 < r.refCount n) :
    (r.insert e).2.sink = r.sink
  /-- Nothing is asked when the classes of a released element stay live. -/
  release_live (reg : Registration) (h : ∀ n ∈ reg.element.classNames, 0 < (r.release reg).refCount n) :
    (r.release reg).sink = r.sink

/-- The invariant gives the discipline at once, whatever the client does next. Only a release looks
at the registrations of the client: one that the registry has issued is in the ledger, and so all of
its classes can be given up. -/
theorem Kept.disciplined {c : Client (Recorded σ)} {earlier since : List SinkCall}
    {r : Registry (Recorded σ)} {l : Ledger} (h : Kept earlier since r l)
    (hl : Balanced r.id c.registrations c.globals l) : Disciplined c r := by
  constructor
  case insert =>
    intro e
    obtain ⟨ms, hms, hdoes⟩ := Registry.insert_does h.tallies e
    exact ⟨ms, hms, hdoes.moves, hdoes.serves.recorded.1⟩
  case release =>
    intro n reg hn
    rw [Registry.release]
    by_cases hreg : reg.registry = r.id
    · -- The registration is in the ledger, so every class of the element has a reference to give up.
      have hnames := tallies_released h.tallies (hl.registrations.perm_of_own hn hreg)
      obtain ⟨ms, hms, hdoes⟩ := Registry.relinquishAll_does hnames
      rw [if_pos hreg, if_pos hreg, Registry.removeElement_eq]
      exact ⟨ms, hms, hdoes.moves, hdoes.serves.recorded.1⟩
    · rw [if_neg hreg, if_neg hreg]
      exact ⟨[], rfl, .nil _, (List.append_nil _).symm⟩
  case insertGlobal =>
    intro rule
    obtain ⟨handle, hserves, hok, herr⟩ := Registry.insertGlobal_serves r rule
    exact ⟨handle, hserves.recorded.1, hok, herr⟩
  case releaseGlobal =>
    intro n reg _
    exact (Registry.releaseGlobal_serves r reg).recorded.1
  case insert_live =>
    intro e hlive
    obtain ⟨t, ht, hsink, -⟩ := Registry.insert_live hlive
    rw [ht]
    exact hsink
  case release_live =>
    intro reg hlive
    rw [Registry.release] at hlive ⊢
    split
    · next hreg =>
      simp only [if_pos hreg] at hlive
      rw [Registry.removeElement_eq] at hlive ⊢
      exact Registry.relinquishAll_live hlive
    · rfl

/-- Over a whole history, in either mode, and whatever is done to the sinks besides, what a registry
asks of its sink obeys the discipline. No handle is given out twice, given back before it is given
out or given back twice, none has two owners, and the sink holds what it has issued since it was last
cleared under a handle of an entry or of an outstanding global registration. -/
theorem sink_calls_disciplined {c : Client (Recorded σ)} (hc : c.Fresh) {k : Nat}
    {r₀ : Registry (Recorded σ)} (hr₀ : c.registries[k]? = some r₀) (hcalls : r₀.sink.calls = [])
    (hempty : held r₀.sink.sink = []) (actions : List ClientAction) {r : Registry (Recorded σ)}
    (hr : (c.run actions).registries[k]? = some r) :
    let owned := handlesOf r.entries ++ (c.ledger k actions).handles
    let since := r.sink.calls.drop (clearMark k 0 c actions)
    Disciplined (c.run actions) r ∧
      Backed r.sink.calls ∧
      ((issuedIn r.sink.calls).map Prod.fst).Nodup ∧
      (retractedIn r.sink.calls).Nodup ∧
      owned.Nodup ∧
      (held r.sink.sink).Perm ((issuedIn since).filter fun p => p.1 ∈ owned) := by
  obtain ⟨⟨earlier, since, hlen, hkept⟩, hl⟩ := kept_run hc hr₀ hcalls hempty actions hr
  obtain ⟨howned, hgone, hheld⟩ := hkept.faithful.held_perm_owned hkept.custody
  have hdrop : (earlier ++ since).drop earlier.length = since := List.drop_left
  simp only [hkept.calls, ← hlen, hdrop]
  exact ⟨hkept.disciplined hl, hkept.custody.backed, hkept.faithful.issued_nodup, hgone, howned,
    hheld⟩

/-- The sink is cleared while a class and a global rule are in it. An insertion fails and is undone
then, and another one succeeds; the handle of the global rule comes back late, and hits nothing. -/
theorem sink_calls_disciplined_cleared :
    let x : StyleRule := ⟨"x"⟩
    let y : StyleRule := ⟨"y"⟩
    let b : StyleRule := ⟨"b"⟩
    let base : StyleElement := .node [] (some ⟨⟨"A", by decide⟩, [x]⟩)
    let bad : StyleElement := .node [base] (some ⟨⟨"B", by decide⟩, [y, b]⟩)
    let good : StyleElement := .node [base] (some ⟨⟨"C", by decide⟩, [y]⟩)
    let c : Client (Recorded FastidiousSink) := .ofSinks ⟨.strict⟩ [.of (.empty "b")]
    let actions : List ClientAction :=
      [.insert 0 base, .insertGlobal 0 x, .operate 0 .clear, .insert 0 bad, .insert 0 good,
        .releaseGlobal 0 0, .release 0 0]
    ∃ r, (c.run actions).registries[0]? = some r ∧
      r.sink.calls = [.add (some ⟨0⟩) x, .addGlobal (some ⟨1⟩) x, .add (some ⟨2⟩) y, .add none b,
        .retract ⟨2⟩, .add (some ⟨3⟩) y, .retract ⟨1⟩] ∧
      Disciplined (c.run actions) r ∧ (held r.sink.sink).Perm [(⟨3⟩, y)] := by
  intro x y b base bad good c actions
  have hc : c.Fresh := fresh_ofSinks ⟨.strict⟩ [Recorded.of (FastidiousSink.empty "b")]
  have hr₀ : c.registries[0]? = some (.new 0 ⟨.strict⟩ (.of (.empty "b"))) := rfl
  have hcalls : ((c.run actions).registries[0]?).map (fun r => r.sink.calls) =
      some [.add (some ⟨0⟩) x, .addGlobal (some ⟨1⟩) x, .add (some ⟨2⟩) y, .add none b,
        .retract ⟨2⟩, .add (some ⟨3⟩) y, .retract ⟨1⟩] := by decide +kernel
  have howned : ((c.run actions).registries[0]?).map (fun r => handlesOf r.entries) =
      some [⟨0⟩, ⟨3⟩] := by decide +kernel
  have hglobals : (c.ledger 0 actions).handles = [] := by decide +kernel
  have hclear : clearMark 0 0 c actions = 2 := by decide +kernel
  obtain ⟨r, hr, hcalls⟩ := Option.map_eq_some_iff.1 hcalls
  rw [hr, Option.map_some, Option.some.injEq] at howned
  obtain ⟨hdisciplined, -, -, -, -, hheld⟩ := sink_calls_disciplined hc hr₀ rfl rfl actions hr
  rw [howned, hglobals, hclear, hcalls] at hheld
  exact ⟨r, hr, hcalls, hdisciplined, hheld⟩

end Client

end ScopedCss
