import ScopedCss.Proofs.Registry.Walk

/-!
# Registries over related sinks

A registry knows its sink by the answers it gets. So if two sinks are related by a simulation, that
is, if they give the same answers and stay related whatever they are asked, then registries over
them do the same: they answer alike, keep the same entries and report the same, and their sinks
are related again.

One sink may be an instrumented version of the other. What the instrumentation does then follows
from what it does for a single request.
-/

namespace ScopedCss

variable {σ τ : Type} [Sink σ] [Sink τ]

/-- Related sinks give the same answers and stay related. -/
structure Sink.Simulation (R : τ → σ → Prop) : Prop where
  add {u : τ} {s : σ} (h : R u s) (rule : StyleRule) :
    (Sink.add u rule).1 = (Sink.add s rule).1 ∧ R (Sink.add u rule).2 (Sink.add s rule).2
  addGlobal {u : τ} {s : σ} (h : R u s) (rule : StyleRule) :
    (Sink.addGlobal u rule).1 = (Sink.addGlobal s rule).1 ∧
      R (Sink.addGlobal u rule).2 (Sink.addGlobal s rule).2
  retract {u : τ} {s : σ} (h : R u s) (handle : Handle) :
    R (Sink.retract u handle) (Sink.retract s handle)

theorem Sink.Simulation.retractAll {R : τ → σ → Prop} (hR : Sink.Simulation R) {u : τ} {s : σ}
    (h : R u s) (handles : List Handle) :
    R (Sink.retractAll u handles) (Sink.retractAll s handles) := by
  induction handles generalizing u s with
  | nil => exact h
  | cons handle handles ih => exact ih (hR.retract h handle)

namespace Registry

open StyleElement

/-- Registries that differ in nothing but their sinks, which are related. -/
structure Alike (R : τ → σ → Prop) (q : Registry τ) (r : Registry σ) : Prop where
  id : q.id = r.id
  config : q.config = r.config
  entries : q.entries = r.entries
  log : q.log = r.log
  sink : R q.sink r.sink

/-- The same answer, and registries that are alike. -/
def AlikeAfter {α : Type} (R : τ → σ → Prop) (p : α × Registry τ) (p' : α × Registry σ) : Prop :=
  p.1 = p'.1 ∧ Alike R p.2 p'.2

variable {R : τ → σ → Prop} {q : Registry τ} {r : Registry σ}

/-! ## Classes -/

/-- Bringing rules to related sinks: the answers are the same, so the two walks stop at the same
rule. -/
theorem Alike.addRules (hR : Sink.Simulation R) (h : Alike R q r) (taken : List Handle)
    (rules : List StyleRule) : AlikeAfter R (q.addRules taken rules) (r.addRules taken rules) := by
  induction rules generalizing q r taken with
  | nil => exact ⟨rfl, h⟩
  | cons rule rules ih =>
    obtain ⟨hanswer, hsink⟩ := hR.add h.sink rule
    rw [Registry.addRules, Registry.addRules]
    rcases hq : Sink.add q.sink rule with ⟨answer, u⟩
    rcases hr : Sink.add r.sink rule with ⟨answer', s⟩
    rw [hq, hr] at hanswer hsink
    obtain rfl : answer = answer' := hanswer
    cases answer with
    | ok handle =>
      have h' : Alike R { q with sink := u } { r with sink := s } :=
        ⟨h.id, h.config, h.entries, h.log, hsink⟩
      exact ih h' (taken ++ [handle])
    | error e =>
      have hmode : q.config.mode = r.config.mode := by rw [h.config]
      cases hm : r.config.mode with
      | strict =>
        simp only [hmode, hm]
        exact ⟨rfl, h.id, h.config, h.entries, h.log, hR.retractAll hsink taken⟩
      | relaxed =>
        have h' : Alike R ({ q with sink := u }.note (.ruleSkipped rule e))
            ({ r with sink := s }.note (.ruleSkipped rule e)) :=
          ⟨h.id, h.config, h.entries, congrArg (· ++ [Notice.ruleSkipped rule e]) h.log, hsink⟩
        simp only [hmode, hm]
        exact ih h' taken

/-- Acquiring a class over related sinks, which is live in both registries or in neither. -/
theorem Alike.acquire (hR : Sink.Simulation R) (h : Alike R q r) (f : Fragment) :
    AlikeAfter R (q.acquire f) (r.acquire f) := by
  rw [Registry.acquire, Registry.acquire, h.entries]
  cases hg : r.entries.get? f.className with
  | some e => exact ⟨rfl, h.id, h.config, rfl, h.log, h.sink⟩
  | none =>
    have hrules := h.addRules hR [] f.rules
    rcases hq : q.addRules [] f.rules with ⟨answer, q'⟩
    rcases hr : r.addRules [] f.rules with ⟨answer', r'⟩
    rw [hq, hr] at hrules
    obtain ⟨hanswer, h'⟩ := hrules
    obtain rfl : answer = answer' := hanswer
    cases answer with
    | error e => exact ⟨rfl, h'⟩
    | ok handles =>
      refine ⟨rfl, h'.id, h'.config, ?_, ?_, h'.sink⟩
      · exact congrArg (fun m => OrderedMap.set m f.className ⟨1, handles⟩) h'.entries
      · exact congrArg (· ++ [Notice.inserted f.className handles.length]) h'.log

/-- Giving up a class over related sinks gives the same handles back to both. -/
theorem Alike.relinquish (hR : Sink.Simulation R) (h : Alike R q r) (n : ClassName) :
    Alike R (q.relinquish n) (r.relinquish n) := by
  rw [Registry.relinquish, Registry.relinquish, h.entries]
  cases hg : r.entries.get? n with
  | none => exact h
  | some e =>
    by_cases hc : 0 < e.count - 1
    · simp only [if_pos hc]
      exact ⟨h.id, h.config, rfl, h.log, h.sink⟩
    · simp only [if_neg hc]
      refine ⟨h.id, h.config, ?_, ?_, hR.retractAll h.sink e.handles⟩
      · exact congrArg (fun m => OrderedMap.erase m n) h.entries
      · exact congrArg (· ++ [Notice.retracted n e.handles.length]) h.log

/-! ## Elements -/

theorem Alike.relinquishAll (hR : Sink.Simulation R) (h : Alike R q r) (ns : List ClassName) :
    Alike R (q.relinquishAll ns) (r.relinquishAll ns) := by
  induction ns generalizing q r with
  | nil => exact h
  | cons n ns ih => exact ih (h.relinquish hR n)

theorem Alike.removeElement (hR : Sink.Simulation R) (h : Alike R q r) (e : StyleElement) :
    Alike R (q.removeElement e) (r.removeElement e) := by
  rw [removeElement_eq, removeElement_eq]
  exact h.relinquishAll hR _

theorem Alike.removeAll (hR : Sink.Simulation R) (h : Alike R q r) (es : List StyleElement) :
    Alike R (q.removeAll es) (r.removeAll es) := by
  rw [removeAll_eq, removeAll_eq]
  exact h.relinquishAll hR _

/-- Inserting a tree over related sinks. Where one walk fails the other one does, and both undo the
same. -/
theorem Alike.insertions (hR : Sink.Simulation R) :
    (∀ (e : StyleElement) (q : Registry τ) (r : Registry σ), Alike R q r →
      AlikeAfter R (q.insertElement e) (r.insertElement e)) ∧
    ∀ (es : List StyleElement) (q : Registry τ) (r : Registry σ) (done : List StyleElement),
      Alike R q r → AlikeAfter R (q.insertAll done es) (r.insertAll done es) := by
  refine StyleElement.induct (fun cs owned ih q r h => ?_) (fun q r done h => ⟨rfl, h⟩)
    fun e es ihe ihes q r done h => ?_
  · have hcs := ih q r [] h
    rw [Registry.insertElement, Registry.insertElement]
    rcases hq : q.insertAll [] cs with ⟨answer, q'⟩
    rcases hr : r.insertAll [] cs with ⟨answer', r'⟩
    rw [hq, hr] at hcs
    obtain ⟨hanswer, h'⟩ := hcs
    obtain rfl : answer = answer' := hanswer
    rcases answer with err | ⟨⟨⟩⟩
    · exact ⟨rfl, h'⟩
    · cases owned with
      | none => exact ⟨rfl, h'⟩
      | some f =>
        have hf := h'.acquire hR f
        simp only
        rcases hq : q'.acquire f with ⟨answer, q''⟩
        rcases hr : r'.acquire f with ⟨answer', r''⟩
        rw [hq, hr] at hf
        obtain ⟨hanswer, h''⟩ := hf
        obtain rfl : answer = answer' := hanswer
        rcases answer with err | ⟨⟨⟩⟩
        · exact ⟨rfl, h''.removeAll hR cs.reverse⟩
        · exact ⟨rfl, h''⟩
  · have he := ihe q r h
    rw [Registry.insertAll, Registry.insertAll]
    rcases hq : q.insertElement e with ⟨answer, q'⟩
    rcases hr : r.insertElement e with ⟨answer', r'⟩
    rw [hq, hr] at he
    obtain ⟨hanswer, h'⟩ := he
    obtain rfl : answer = answer' := hanswer
    rcases answer with err | ⟨⟨⟩⟩
    · exact ⟨rfl, h'.removeAll hR done⟩
    · exact ihes q' r' (e :: done) h'

/-- Insertions over related sinks answer alike, down to the registration. -/
theorem Alike.insert (hR : Sink.Simulation R) (h : Alike R q r) (e : StyleElement) :
    AlikeAfter R (q.insert e) (r.insert e) := by
  have he := (Alike.insertions hR).1 e q r h
  rw [Registry.insert, Registry.insert]
  rcases hq : q.insertElement e with ⟨answer, q'⟩
  rcases hr : r.insertElement e with ⟨answer', r'⟩
  rw [hq, hr] at he
  obtain ⟨hanswer, h'⟩ := he
  obtain rfl : answer = answer' := hanswer
  rcases answer with err | ⟨⟨⟩⟩
  · exact ⟨rfl, h'⟩
  · refine ⟨?_, h'⟩
    show Except.ok (Registration.mk q'.id e) = Except.ok (Registration.mk r'.id e)
    rw [h'.id]

/-- Releases over related sinks, including one that is ignored. -/
theorem Alike.release (hR : Sink.Simulation R) (h : Alike R q r) (reg : Registration) :
    Alike R (q.release reg) (r.release reg) := by
  rw [Registry.release, Registry.release]
  by_cases hreg : reg.registry = r.id
  · rw [if_pos (hreg.trans h.id.symm), if_pos hreg]
    exact h.removeElement hR reg.element
  · rw [if_neg (h.id ▸ hreg), if_neg hreg]
    exact ⟨h.id, h.config, h.entries, congrArg (· ++ [_]) h.log, h.sink⟩

/-! ## Rules without a class -/

/-- A rule that belongs to no class is taken by both of two related sinks, or refused by both. -/
theorem Alike.insertGlobal (hR : Sink.Simulation R) (h : Alike R q r) (rule : StyleRule) :
    AlikeAfter R (q.insertGlobal rule) (r.insertGlobal rule) := by
  obtain ⟨hanswer, hsink⟩ := hR.addGlobal h.sink rule
  rw [Registry.insertGlobal, Registry.insertGlobal]
  rcases hq : Sink.addGlobal q.sink rule with ⟨answer, u⟩
  rcases hr : Sink.addGlobal r.sink rule with ⟨answer', s⟩
  rw [hq, hr] at hanswer hsink
  obtain rfl : answer = answer' := hanswer
  cases answer with
  | ok handle =>
    refine ⟨?_, h.id, h.config, h.entries, h.log, hsink⟩
    show Except.ok (GlobalRegistration.mk q.id rule _) = Except.ok (GlobalRegistration.mk r.id rule _)
    rw [h.id]
  | error e =>
    have hmode : q.config.mode = r.config.mode := by rw [h.config]
    cases hm : r.config.mode with
    | strict =>
      simp only [hmode, hm]
      exact ⟨rfl, h.id, h.config, h.entries, h.log, hsink⟩
    | relaxed =>
      simp only [hmode, hm]
      refine ⟨?_, h.id, h.config, h.entries, ?_, hsink⟩
      · show Except.ok (GlobalRegistration.mk q.id rule none) = _
        rw [h.id]
      · exact congrArg (· ++ [Notice.globalSkipped rule e]) h.log

/-- Releasing such a rule gives the same handle back to both of two related sinks. -/
theorem Alike.releaseGlobal (hR : Sink.Simulation R) (h : Alike R q r) (reg : GlobalRegistration) :
    Alike R (q.releaseGlobal reg) (r.releaseGlobal reg) := by
  rw [Registry.releaseGlobal, Registry.releaseGlobal]
  by_cases hreg : reg.registry = r.id
  · rw [if_pos (hreg.trans h.id.symm), if_pos hreg]
    cases reg.handle with
    | none => exact h
    | some handle => exact ⟨h.id, h.config, h.entries, h.log, hR.retract h.sink handle⟩
  · rw [if_neg (h.id ▸ hreg), if_neg hreg]
    exact ⟨h.id, h.config, h.entries, congrArg (· ++ [_]) h.log, h.sink⟩

end Registry

end ScopedCss
