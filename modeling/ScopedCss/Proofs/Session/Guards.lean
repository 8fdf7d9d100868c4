import ScopedCss.Proofs.Registry.Counts
import ScopedCss.Proofs.Session.Account
import ScopedCss.Proofs.Session.Working

/-!
# Guards release once

A session is balanced (`Balanced`) if the registry counts what the guards stand for, and the sink
holds, besides the rules of the classes, what the global guards stand for. While a call is on its
way a guard may be in nobody's hands: what it stands for is then counted apart.

Every action keeps the balance, whatever comes in from below, and one that fails leaves the classes
and the rules as they were.
-/

namespace ScopedCss

namespace Session

open Account Desk Registry LawfulSink StyleElement

variable {σ : Type} [Sink σ] [LawfulSink σ]

/-- The registry counts the elements in `es` and those that are claimed on the desk, and the sink
holds, besides the rules of the classes, the rules in `ps` and those that are claimed. -/
structure Balanced (id : Nat) (es : List StyleElement) (ps : HeldRules) (s : Session σ) : Prop where
  id_eq : s.registry.id = id
  guarded : Guarded id s.desk
  quiet : ∀ n ∈ s.registry.log, n.isLeak = false
  tallies : s.registry.Tallies (classNamesOfAll (es ++ s.desk.claims))
  holds : s.registry.Holds (fun _ _ => True) (ps ++ s.desk.ruleClaims)

/-- The same classes with the same counts and handles, and the same rules with the same handles. -/
def Unchanged (s t : Session σ) : Prop :=
  t.registry.entries = s.registry.entries ∧ held t.registry.sink = held s.registry.sink

variable {id : Nat} {es es' : List StyleElement} {ps ps' : HeldRules} {s t u : Session σ}

theorem Unchanged.trans (h : Unchanged s t) (h' : Unchanged t u) : Unchanged s u :=
  ⟨h'.1.trans h.1, h'.2.trans h.2⟩

theorem Idle.unchanged (h : Idle s t) : Unchanged s t := by
  obtain ⟨hreg, -⟩ := h
  unfold Unchanged
  rw [hreg]
  exact ⟨rfl, rfl⟩

namespace Balanced

/-- What leaves the registry alone keeps the balance, since the claims stay what they are. -/
theorem idle (hs : Balanced id es ps s) (h : Idle s t) : Balanced id es ps t := by
  obtain ⟨hreg, hdesk⟩ := h
  rw [hs.id_eq] at hdesk
  obtain ⟨hguarded, hclaims, hrules⟩ := hdesk hs.guarded
  refine ⟨?_, hguarded, ?_, ?_, ?_⟩
  · rw [hreg]
    exact hs.id_eq
  · rw [hreg]
    exact hs.quiet
  · rw [hreg]
    exact hs.tallies.perm (classNamesOfAll_perm (hclaims.symm.append_left es))
  · rw [hreg]
    exact hs.holds.perm (hrules.symm.append_left ps)

/-- What is counted apart, or claimed on the desk, can be put in another order or place. -/
theorem redistribute (hs : Balanced id es ps s) {d : Desk} (hd : Guarded id d)
    (hes : (es ++ s.desk.claims).Perm (es' ++ d.claims))
    (hps : (ps ++ s.desk.ruleClaims).Perm (ps' ++ d.ruleClaims)) :
    Balanced id es' ps' { s with desk := d } :=
  ⟨hs.id_eq, hd, hs.quiet, hs.tallies.perm (classNamesOfAll_perm hes), hs.holds.perm hps⟩

/-- Collecting what the registry has reported leaves the claims alone. -/
theorem drift_collect (hs : Balanced id es ps s) {d : Desk} (hd : Drift id s.desk d)
    {r : Registry σ} (hr : Continues s.registry r) : Drift id s.desk (Session.collect d r).desk :=
  hd.trans (.note d (hr.quiet hs.quiet))

/-- The registry has done something, and the desk has drifted meanwhile. -/
theorem collect (hs : Balanced id es ps s) {d : Desk} (hd : Drift id s.desk d)
    {r : Registry σ} (hr : Continues s.registry r)
    (htallies : r.Tallies (classNamesOfAll (es' ++ s.desk.claims)))
    (hholds : r.Holds (fun _ _ => True) (ps' ++ s.desk.ruleClaims)) :
    Balanced id es' ps' (Session.collect d r) := by
  obtain ⟨hguarded, hclaims, hrules⟩ := hs.drift_collect hd hr hs.guarded
  refine ⟨hr.id.trans hs.id_eq, hguarded, ?_, ?_, ?_⟩
  · intro n hn
    cases hn
  · have htallies' := htallies.perm (classNamesOfAll_perm (hclaims.symm.append_left es'))
    exact htallies'.of_entries rfl
  · have hholds' := hholds.perm (hrules.symm.append_left ps')
    exact hholds'.withSink hholds'.choose_spec.1.sound.numbered List.perm_append_comm

end Balanced

/-! ## Calls on the registry -/

section Calls

variable {busy : Busy} {call : Callback σ Desk}

theorem admits_true (config : RegistryConfig) (f : Fragment) :
    Admits (fun _ _ => True) config f := fun _ _ _ => trivial

/-- Inserting an element either fails and changes nothing, or leaves a guard to be kept. -/
theorem Balanced.tryInsert (hs : Balanced id es ps s) (hbusy : busy.registry = .free)
    (hcall : Harmless id call) (e : StyleElement) :
    (∃ err t, s.tryInsert busy call e = (.error err, t) ∧ Balanced id es ps t ∧
      Drift id s.desk t.desk ∧ Unchanged s t) ∨
    ∃ t, s.tryInsert busy call e = (.ok ⟨some ⟨id, e⟩, e⟩, t) ∧ Balanced id (e :: es) ps t ∧
      Drift id s.desk t.desk := by
  obtain rfl := hs.id_eq
  obtain ⟨d, hd, hwork⟩ := working_insert hcall e
  have hcont := continues_insert s.registry e
  have htallies := (hs.tallies.insertElement e).2
  have hholds := hs.holds.insertElement (e := e) fun f _ => admits_true _ f
  rw [Session.tryInsert, if_pos hbusy, hwork]
  rcases h : s.registry.insert e with ⟨err | reg, r⟩
  · have he := insert_error h
    rw [h] at hcont
    rw [he] at htallies hholds
    have hback := recovered_of_insertElement_error hs.holds.choose_spec.1.sound he
    exact .inl ⟨_, _, rfl, hs.collect hd hcont htallies hholds, hs.drift_collect hd hcont,
      hback.entries, hback.held⟩
  · obtain ⟨rfl, he⟩ := insert_ok h
    rw [h] at hcont
    rw [he] at htallies hholds
    have htallies' : r.Tallies (classNamesOfAll (e :: es ++ s.desk.claims)) := by
      rw [List.cons_append, classNamesOfAll_cons]
      exact htallies
    exact .inr ⟨_, rfl, hs.collect hd hcont htallies' hholds, hs.drift_collect hd hcont⟩

/-- An insertion of a global rule while the registry is free. It fails and changes nothing, or there
is a guard in nobody's hands that stands for the rule. -/
theorem Balanced.tryInsertGlobal (hs : Balanced id es ps s) (hbusy : busy.registry = .free)
    (hcall : Harmless id call) (rule : StyleRule) :
    (∃ err t, s.tryInsertGlobal busy call rule = (.error err, t) ∧ Balanced id es ps t ∧
      Drift id s.desk t.desk ∧ Unchanged s t) ∨
    ∃ g reg t, s.tryInsertGlobal busy call rule = (.ok g, t) ∧ g.registration = some reg ∧
      reg.registry = id ∧ Balanced id es (g.held ++ ps) t ∧ Drift id s.desk t.desk := by
  obtain rfl := hs.id_eq
  obtain ⟨d, hd, hwork⟩ := working_insertGlobal hcall rule
  have hcont := continues_insertGlobal s.registry rule
  have hentries := insertGlobal_entries s.registry rule
  rw [Session.tryInsertGlobal, if_pos hbusy, hwork]
  rcases h : s.registry.insertGlobal rule with ⟨err | reg, r⟩
  · rw [h] at hcont hentries
    have hholds := hs.holds.insertGlobal_error h
    have hheld := insertGlobal_error_held h
    exact .inl ⟨_, _, rfl, hs.collect hd hcont (hs.tallies.of_entries hentries) hholds,
      hs.drift_collect hd hcont, hentries, hheld⟩
  · rw [h] at hcont hentries
    have hholds := hs.holds.insertGlobal_ok h
    rw [← List.append_assoc] at hholds
    exact .inr ⟨_, reg, _, rfl, rfl, (insertGlobal_ok h).1,
      hs.collect hd hcont (hs.tallies.of_entries hentries) hholds, hs.drift_collect hd hcont⟩

/-- Ending a guard takes away what it stands for. -/
theorem Balanced.finish {g : StyleGuard} (hs : Balanced id (g.element :: es) ps s)
    (hbusy : busy.registry = .free) (hcall : Harmless id call)
    (hg : g.registration = some ⟨id, g.element⟩) :
    Balanced id es ps (s.finish busy call g).2 ∧ Drift id s.desk (s.finish busy call g).2.desk := by
  obtain rfl := hs.id_eq
  obtain ⟨d, hd, hwork⟩ := working_finish hcall hg
  have hrelease : s.registry.release ⟨s.registry.id, g.element⟩ =
      s.registry.removeElement g.element := if_pos rfl
  have hcont := continues_release s.registry ⟨s.registry.id, g.element⟩
  have htallies := hs.tallies
  rw [List.cons_append, classNamesOfAll_cons] at htallies
  rw [Session.finish, if_pos hbusy, hwork]
  rw [hrelease] at hcont ⊢
  exact ⟨hs.collect hd hcont htallies.removeElement.2 (hs.holds.removeElement g.element),
    hs.drift_collect hd hcont⟩

/-- A global guard that is in nobody's hands and is finished while the registry is free takes its
rule with it. -/
theorem Balanced.finishGlobal {g : GlobalGuard} {reg : GlobalRegistration}
    (hs : Balanced id es (g.held ++ ps) s) (hbusy : busy.registry = .free)
    (hcall : Harmless id call) (hg : g.registration = some reg)
    (hreg : reg.registry = id) :
    Balanced id es ps (s.finishGlobal busy call g).2 ∧
      Drift id s.desk (s.finishGlobal busy call g).2.desk := by
  obtain rfl := hs.id_eq
  obtain ⟨d, hd, hwork⟩ := working_finishGlobal hcall hg
  have hheld : g.held = reg.held := by
    rw [GlobalGuard.held, hg]
    rfl
  have hcont := continues_releaseGlobal s.registry reg
  have hp : (g.held ++ ps ++ s.desk.ruleClaims).Perm (reg.held ++ (ps ++ s.desk.ruleClaims)) := by
    rw [hheld, List.append_assoc]
  rw [Session.finishGlobal, if_pos hbusy, hwork]
  exact ⟨hs.collect hd hcont (hs.tallies.of_entries (releaseGlobal_entries s.registry reg))
    (hs.holds.releaseGlobal hreg hp), hs.drift_collect hd hcont⟩

/-! ## Actions -/

/-- The balance is kept, a failed call has changed neither classes nor rules, and the account goes
on with what the call has brought. -/
structure Kept (id : Nat) (es : List StyleElement) (ps : HeldRules) (s : Session σ)
    (p : SessionOutcome σ × Session σ) : Prop where
  balanced : Balanced id es ps p.2
  unchanged : ∀ e, p.1.error? = some e → Unchanged (p.1.before s) p.2
  settled : ∀ l, Settled l s → Settled (l.add p.1.obtained) p.2

theorem Idle.settled (hs : Balanced id es ps s) (h : Idle s t) {l : Account} (hl : Settled l s) :
    Settled l t := by
  obtain ⟨-, hdesk⟩ := h
  rw [hs.id_eq] at hdesk
  obtain ⟨-, hclaims, hrules⟩ := hdesk hs.guarded
  exact ⟨hl.1.trans hclaims.symm, hl.2.trans hrules.symm⟩

theorem Kept.of_idle (hs : Balanced id es ps s) (h : Idle s t) {o : SessionOutcome σ}
    (hinner : o.inner? = none) (hobtained : o.obtained = .empty) : Kept id es ps s (o, t) := by
  refine ⟨hs.idle h, fun _ _ => ?_, fun l hl => ?_⟩
  · rw [SessionOutcome.before, hinner]
    exact h.unchanged
  · rw [hobtained]
    exact h.settled hs hl

/-- Inserting an element after the desk has been worked on. -/
theorem Kept.useNow (hs : Balanced id es ps s) (hst : Idle s t) (hcall : Harmless id call)
    (e : StyleElement) : Kept id es ps s (t.useNow busy call e) := by
  have ht : Balanced id es ps t := hs.idle hst
  by_cases hbusy : busy.registry = .free
  · rcases ht.tryInsert hbusy hcall e with
      ⟨err, u, htry, hu, hdrift, hunchanged⟩ | ⟨u, htry, hu, hdrift⟩
    · rw [Session.useNow, htry]
      have hkeep : Idle u { u with desk := u.desk.keepGuard none } := .desk (.keepGuard_none _)
      refine ⟨hu.idle hkeep, fun _ _ => hst.unchanged.trans hunchanged, fun l hl => ?_⟩
      obtain ⟨-, hclaims, hrules⟩ := (hdrift.trans (.keepGuard_none u.desk)) ht.guarded
      exact (hst.settled hs hl).add hclaims hrules
    · rw [Session.useNow, htry]
      obtain ⟨-, hclaims, hrules⟩ := hdrift ht.guarded
      have hkeep := claims_keepGuard u.desk ⟨some ⟨id, e⟩, e⟩
      refine ⟨hu.redistribute (hu.guarded.keepGuard rfl) ?_ (.refl _), (fun _ h => by cases h),
        fun l hl => (hst.settled hs hl).add (hkeep.trans (hclaims.cons e)) hrules⟩
      exact ((hkeep.append_left es).trans List.perm_middle).symm
  · have htry : t.tryInsert busy call e = (.error .registryBusy, t) := if_neg hbusy
    rw [Session.useNow, htry]
    have hkeep : Idle t { t with desk := t.desk.keepGuard none } := .desk (.keepGuard_none _)
    exact .of_idle hs (hst.trans hkeep) rfl rfl

/-- Injecting a global rule keeps the balance and obtains what the account notes down. The guard
passes from nobody's hands to the desk. -/
theorem Kept.injectNow (hs : Balanced id es ps s) (hcall : Harmless id call) (selector : String)
    (block : Declarations) : Kept id es ps s (s.injectNow busy call selector block) := by
  have hrender := drift_tryRender s.registry.id s.desk busy selector block
  rw [Session.injectNow]
  rcases h : s.desk.tryRender busy selector block with ⟨err | rule, desk⟩
  · rw [h] at hrender
    exact .of_idle hs (.desk (hrender.trans (.keepGlobal_none _))) rfl rfl
  · rw [h] at hrender
    have hdesk : Idle s { s with desk } := .desk hrender
    have hs' : Balanced id es ps { s with desk } := hs.idle hdesk
    by_cases hbusy : busy.registry = .free
    · rcases hs'.tryInsertGlobal hbusy hcall rule with
        ⟨err, t, htry, ht, hdrift, hunchanged⟩ | ⟨g, reg, t, htry, hg, hreg, ht, hdrift⟩
      · simp only [htry]
        have hkeep : Idle t { t with desk := t.desk.keepGlobal none } := .desk (.keepGlobal_none _)
        refine ⟨ht.idle hkeep, fun _ _ => hdesk.unchanged.trans hunchanged, fun l hl => ?_⟩
        obtain ⟨-, hclaims, hrules⟩ := (hdrift.trans (.keepGlobal_none t.desk)) hs'.guarded
        exact (hdesk.settled hs hl).add hclaims hrules
      · simp only [htry]
        obtain ⟨-, hclaims, hrules⟩ := hdrift hs'.guarded
        have hkeep := ruleClaims_keepGlobal t.desk g
        refine ⟨ht.redistribute (ht.guarded.keepGlobal hg hreg) (.refl _) ?_, (fun _ h => by cases h),
          fun l hl => (hdesk.settled hs hl).add hclaims (hkeep.trans (hrules.append_left g.held))⟩
        refine ((hkeep.append_left ps).trans ?_).symm
        rw [List.append_assoc]
        exact List.perm_append_comm_assoc ps g.held _
    · have htry : ({ s with desk } : Session σ).tryInsertGlobal busy call rule =
          (.error .registryBusy, { s with desk }) := if_neg hbusy
      simp only [htry]
      exact .of_idle hs (.desk (hrender.trans (.keepGlobal_none _))) rfl rfl

/-- The guard with a number is in nobody's hands. -/
theorem Balanced.spendGuard (hs : Balanced id es ps s) {n : Nat} {g : StyleGuard}
    (hg : s.desk.guard? n = some g) :
    Balanced id (g.element :: es) ps { s with desk := s.desk.spendGuard n } := by
  refine hs.redistribute (hs.guarded.spendGuard n) ?_ (.refl _)
  exact ((claims_spendGuard hg).append_left es).trans List.perm_middle

theorem Balanced.spendGlobal (hs : Balanced id es ps s) {n : Nat} {g : GlobalGuard}
    (hg : s.desk.global? n = some g) :
    Balanced id es (g.held ++ ps) { s with desk := s.desk.spendGlobal n } := by
  refine hs.redistribute (hs.guarded.spendGlobal n) (.refl _) ?_
  refine ((ruleClaims_spendGlobal hg).append_left ps).trans ?_
  rw [List.append_assoc]
  exact List.perm_append_comm_assoc ps g.held _

/-- While the registry is free, the claim of a guard goes when the guard ends. -/
theorem Balanced.endGuard (hs : Balanced id es ps s) (hbusy : busy.registry = .free)
    (hcall : Harmless id call) {n : Nat} {g : StyleGuard} (hg : s.desk.guard? n = some g) :
    let t := ({ s with desk := s.desk.spendGuard n }.finish busy call g).2
    Balanced id es ps t ∧ s.desk.claims.Perm (g.element :: t.desk.claims) ∧
      s.desk.ruleClaims.Perm t.desk.ruleClaims := by
  have hspent := hs.spendGuard hg
  have hreg := hs.guarded.guards g (List.mem_of_getElem? (getElem?_of_guard? hg))
  obtain ⟨ht, hdrift⟩ := hspent.finish hbusy hcall hreg
  obtain ⟨-, hclaims, hrules⟩ := hdrift hspent.guarded
  exact ⟨ht, (claims_spendGuard hg).trans (hclaims.symm.cons g.element), hrules.symm⟩

/-- A global guard of the desk that ends while the registry is free is settled: its rule leaves the
claims together with the sink. -/
theorem Balanced.endGlobal (hs : Balanced id es ps s) (hbusy : busy.registry = .free)
    (hcall : Harmless id call) {n : Nat} {g : GlobalGuard} (hg : s.desk.global? n = some g) :
    let t := ({ s with desk := s.desk.spendGlobal n }.finishGlobal busy call g).2
    Balanced id es ps t ∧ s.desk.claims.Perm t.desk.claims ∧
      s.desk.ruleClaims.Perm (g.held ++ t.desk.ruleClaims) := by
  have hspent := hs.spendGlobal hg
  obtain ⟨reg, hreg, hown⟩ := hs.guarded.globals g (List.mem_of_getElem? (getElem?_of_global? hg))
  obtain ⟨ht, hdrift⟩ := hspent.finishGlobal hbusy hcall hreg hown
  obtain ⟨-, hclaims, hrules⟩ := hdrift hspent.guarded
  exact ⟨ht, hclaims.symm, (ruleClaims_spendGlobal hg).trans (hrules.symm.append_left g.held)⟩

/-- A probe that finds the registry free inserts and releases at once, and one that does not leaves
it alone. Either way the balance is what it was. -/
theorem Balanced.probeInsert (hs : Balanced id es ps s) (busy : Busy)
    (hcall : Harmless id call) :
    Balanced id es ps (s.probeInsert busy call).2 ∧
      Drift id s.desk (s.probeInsert busy call).2.desk := by
  by_cases hbusy : busy.registry = .free
  · have hbuild := drift_tryBuild id s.desk busy [.raw OrderedMap.empty]
    rw [Session.probeInsert]
    rcases h : s.desk.tryBuild busy [.raw OrderedMap.empty] with ⟨err | e, desk⟩
    · rw [h] at hbuild
      exact ⟨hs.idle (.desk (hs.id_eq ▸ hbuild)), hbuild⟩
    · rw [h] at hbuild
      have hs' : Balanced id es ps { s with desk } := hs.idle (.desk (hs.id_eq ▸ hbuild))
      rcases hs'.tryInsert hbusy hcall e with
        ⟨err, t, htry, ht, hdrift, -⟩ | ⟨t, htry, ht, hdrift⟩
      · simp only [htry]
        exact ⟨ht, hbuild.trans hdrift⟩
      · simp only [htry]
        obtain ⟨hu, hdrift'⟩ := ht.finish (g := ⟨some ⟨id, e⟩, e⟩) hbusy hcall rfl
        exact ⟨hu, (hbuild.trans hdrift).trans hdrift'⟩
  · have hidle := idle_probeInsert hbusy call s
    exact ⟨hs.idle hidle, hs.id_eq ▸ hidle.2⟩

/-- A probe with a global rule leaves the balance as it was. -/
theorem Balanced.probeInsertGlobal (hs : Balanced id es ps s) (busy : Busy)
    (hcall : Harmless id call) :
    Balanced id es ps (s.probeInsertGlobal busy call).2 ∧
      Drift id s.desk (s.probeInsertGlobal busy call).2.desk := by
  by_cases hbusy : busy.registry = .free
  · have hrender := drift_tryRender id s.desk busy "a" OrderedMap.empty
    rw [Session.probeInsertGlobal]
    rcases h : s.desk.tryRender busy "a" OrderedMap.empty with ⟨err | rule, desk⟩
    · rw [h] at hrender
      exact ⟨hs.idle (.desk (hs.id_eq ▸ hrender)), hrender⟩
    · rw [h] at hrender
      have hs' : Balanced id es ps { s with desk } := hs.idle (.desk (hs.id_eq ▸ hrender))
      rcases hs'.tryInsertGlobal hbusy hcall rule with
        ⟨err, t, htry, ht, hdrift, -⟩ | ⟨g, reg, t, htry, hg, hreg, ht, hdrift⟩
      · simp only [htry]
        exact ⟨ht, hrender.trans hdrift⟩
      · simp only [htry]
        obtain ⟨hu, hdrift'⟩ := ht.finishGlobal hbusy hcall hg hreg
        exact ⟨hu, (hrender.trans hdrift).trans hdrift'⟩
  · have hidle := idle_probeInsertGlobal hbusy call s
    exact ⟨hs.idle hidle, hs.id_eq ▸ hidle.2⟩

theorem Balanced.observeNow (hs : Balanced id es ps s) (busy : Busy) (hcall : Harmless id call) :
    Balanced id es ps (s.observeNow busy call) ∧ Drift id s.desk (s.observeNow busy call).desk := by
  obtain ⟨ht, hdrift⟩ := hs.probeInsert busy hcall
  obtain ⟨hu, hdrift'⟩ := ht.probeInsertGlobal busy hcall
  exact ⟨hu.idle (.desk (.of_eq rfl rfl rfl)), (hdrift.trans hdrift').trans (.of_eq rfl rfl rfl)⟩

end Calls

/-- The balance is kept, a failed call has changed neither classes nor rules, and the account goes
on as the call is recorded. -/
structure Stepped (id : Nat) (es : List StyleElement) (ps : HeldRules) (busy : Busy) (s : Session σ)
    (a : SessionAction) (p : SessionOutcome σ × Session σ) : Prop where
  balanced : Balanced id es ps p.2
  unchanged : ∀ e, p.1.error? = some e → Unchanged (p.1.before s) p.2
  settled : ∀ l, Settled l s → Settled (l.record busy s a p.1) p.2

/-- An action of which nothing is recorded but what it has brought. -/
theorem Kept.stepped {busy : Busy} {a : SessionAction} {p : SessionOutcome σ × Session σ}
    (h : Kept id es ps s p) (hrecord : ∀ l : Account, l.record busy s a p.1 = l.add p.1.obtained) :
    Stepped id es ps busy s a p := by
  refine ⟨h.balanced, h.unchanged, fun l hl => ?_⟩
  rw [hrecord]
  exact h.settled l hl

/-- The outer call of a re-entrant one begins where the inner one has ended. -/
theorem Stepped.reentered {busy : Busy} {use : Bool} {inputs : List SessionInput}
    {inner : SessionAction} {o outer : SessionOutcome σ}
    (h : Stepped id es ps { busy with compiler := true } s inner (o, t))
    (houter : Kept id es ps t (outer, u)) :
    Stepped id es ps busy s (.reenter use inputs inner) (.reentered (some (o, t)) outer, u) := by
  refine ⟨houter.balanced, fun e he => ?_, fun l hl => houter.settled _ (h.settled l hl)⟩
  cases outer with
  | failed e' => exact houter.unchanged e' rfl
  | _ => cases he

/-- A guard ends that stands for `m`: this is taken off the account, unless the registry is in use. -/
theorem Balanced.ended (hs : Balanced id es ps s) {busy : Busy} {a : SessionAction} {m : Account}
    {p : SessionOutcome σ × Session σ} (herror : p.1.error? = none)
    (hrecord : ∀ l : Account, l.record busy s a p.1 = if busy.registry = .free then l.sub m else l)
    (hidle : busy.registry ≠ .free → Idle s p.2)
    (hends : busy.registry = .free → Balanced id es ps p.2 ∧
      s.desk.claims.Perm (m.elements ++ p.2.desk.claims) ∧
      s.desk.ruleClaims.Perm (m.rules ++ p.2.desk.ruleClaims)) :
    Stepped id es ps busy s a p := by
  have hnone : ∀ e, p.1.error? = some e → Unchanged (p.1.before s) p.2 := by
    intro e he
    rw [herror] at he
    cases he
  by_cases hbusy : busy.registry = .free
  · obtain ⟨hbal, hclaims, hrules⟩ := hends hbusy
    refine ⟨hbal, hnone, fun l hl => ?_⟩
    rw [hrecord, if_pos hbusy]
    exact hl.sub hclaims hrules
  · refine ⟨hs.idle (hidle hbusy), hnone, fun l hl => ?_⟩
    rw [hrecord, if_neg hbusy]
    exact (hidle hbusy).settled hs hl

/-- Dropping a guard settles it while the registry is free, and otherwise moves its claim to a
notice. -/
theorem Balanced.stepped_drop (hs : Balanced id es ps s) (reaction : Reaction σ) (busy : Busy)
    (n : Nat) :
    Stepped id es ps busy s (.drop n) (stepWith (callback reaction) busy s (.drop n)) := by
  refine hs.ended (m := s.desk.guardAccount n) ?_ (fun _ => rfl)
    (fun hbusy => idle_drop _ hbusy s n) fun hbusy => ?_
  · rw [stepWith]
    split <;> rfl
  · rw [stepWith]
    cases hg : s.desk.guard? n with
    | none =>
      rw [guardAccount_of_none hg]
      exact ⟨hs, .refl _, .refl _⟩
    | some g =>
      rw [guardAccount_of_some hg]
      exact hs.endGuard hbusy (hs.id_eq ▸ harmless_callback reaction busy s) hg

/-- Dropping a global guard settles it while the registry is free, and otherwise its claim is in a
notice. -/
theorem Balanced.stepped_dropGlobal (hs : Balanced id es ps s) (reaction : Reaction σ) (busy : Busy)
    (n : Nat) :
    Stepped id es ps busy s (.dropGlobal n) (stepWith (callback reaction) busy s (.dropGlobal n)) := by
  refine hs.ended (m := s.desk.globalAccount n) ?_ (fun _ => rfl)
    (fun hbusy => idle_dropGlobal _ hbusy s n) fun hbusy => ?_
  · rw [stepWith]
    split <;> rfl
  · rw [stepWith]
    cases hg : s.desk.global? n with
    | none =>
      rw [globalAccount_of_none hg]
      exact ⟨hs, .refl _, .refl _⟩
    | some g =>
      rw [globalAccount_of_some hg]
      exact hs.endGlobal hbusy (hs.id_eq ▸ harmless_callback reaction busy s) hg

/-- An action that neither nests nor ends a guard. -/
theorem Balanced.kept_plain (hs : Balanced id es ps s) {reaction : Reaction σ} {busy : Busy}
    {p : SessionOutcome σ × Session σ} (h : PlainStep (callback reaction) busy s p) :
    Kept id es ps s p := by
  have hcall : ∀ u : Session σ, Idle s u → Harmless id (callback reaction busy u) := by
    intro u hu
    rw [← (hs.idle hu).id_eq]
    exact harmless_callback reaction busy u
  cases h with
  | idle h hinner hobtained => exact .of_idle hs h hinner hobtained
  | use ht hu e => exact .useNow hs ht (hcall _ hu) e
  | inject selector block => exact .injectNow hs (hcall s (.refl s)) selector block
  | observe =>
    obtain ⟨ht, hdrift⟩ := hs.observeNow busy (hcall s (.refl s))
    obtain ⟨-, hclaims, hrules⟩ := hdrift hs.guarded
    exact ⟨ht, (fun _ h => by cases h), fun l hl => hl.add hclaims hrules⟩

/-- Every action keeps the balance and the account, whatever the sink does when it is asked for
something, and an action that fails changes neither classes nor rules. -/
theorem Balanced.step (reaction : Reaction σ) :
    ∀ (a : SessionAction) (busy : Busy) (s : Session σ), Balanced id es ps s →
      Stepped id es ps busy s a (stepWith (callback reaction) busy s a) := by
  refine (SessionAction.induct (Q := fun _ => True) ?within ?reenter ?release ?drop ?dropGlobal
    ?plain trivial fun _ _ _ _ => trivial).1
  case within =>
    intro actions _ busy s hs
    have hkept : Kept id es ps s (stepWith (callback reaction) busy s (.within actions)) := by
      rw [stepWith]
      split
      · exact .of_idle hs (.refl s) rfl rfl
      · split
        · exact .of_idle hs (.refl s) rfl rfl
        · have hread : RegistryUse.read ≠ .free := by decide
          exact .of_idle hs ((idle_steps _).2 actions { busy with registry := .read } s hread) rfl rfl
    exact hkept.stepped fun _ => rfl
  case reenter =>
    intro use inputs inner ih busy s hs
    have hinner := ih { busy with compiler := true } s hs
    rcases plainStep_reenter (callback reaction) busy s use inputs inner with hplain | ⟨q, hq, hstep⟩
    · have hrecord := record_reenter hplain.inner?_eq_none busy s
      exact (hs.kept_plain hplain).stepped fun l => hrecord l use inputs inner
    · rw [hstep]
      exact hinner.reentered (hinner.balanced.kept_plain hq)
  case release =>
    intro n busy s hs
    rw [stepWith_release]
    have hdrop := hs.stepped_drop reaction busy n
    exact ⟨hdrop.balanced, hdrop.unchanged, hdrop.settled⟩
  case drop =>
    intro n busy s hs
    exact hs.stepped_drop reaction busy n
  case dropGlobal =>
    intro n busy s hs
    exact hs.stepped_dropGlobal reaction busy n
  case plain =>
    intro a ha busy s hs
    have hplain := plainStep_stepWith (callback reaction) busy s ha
    exact (hs.kept_plain hplain).stepped fun l => record_of_isPlain ha busy s l _

end Session

end ScopedCss
