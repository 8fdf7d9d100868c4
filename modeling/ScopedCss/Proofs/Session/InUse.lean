import ScopedCss.Proofs.Session.Steps

/-!
# While the registry is in use

Nothing that is done while the registry is in use touches the registry, nor does it change what the
guards stand for. This holds in a function that reads the sink and in what a sink does when it is
asked for something, however deep the calls nest; so a sink that reacts finds all claims as they
were when its registry goes on.
-/

namespace ScopedCss

namespace Session

open Desk

variable {σ : Type} [Sink σ] {busy : Busy} {call : Callback σ Desk}

theorem idle_useNow (hbusy : busy.registry ≠ .free) (s : Session σ) (e : StyleElement) :
    Idle s (s.useNow busy call e).2 := by
  have htry : s.tryInsert busy call e = (.error .registryBusy, s) := if_neg hbusy
  rw [useNow, htry]
  exact .desk (.keepGuard_none _)

/-- Injecting a rule meanwhile leaves the registry alone and all claims as they are. -/
theorem idle_injectNow (hbusy : busy.registry ≠ .free) (s : Session σ) (selector : String)
    (block : Declarations) : Idle s (s.injectNow busy call selector block).2 := by
  have hrender := drift_tryRender s.registry.id s.desk busy selector block
  rw [injectNow]
  rcases h : s.desk.tryRender busy selector block with ⟨err | rule, desk⟩
  · rw [h] at hrender
    exact .desk (hrender.trans (.keepGlobal_none _))
  · rw [h] at hrender
    have htry : ({ s with desk } : Session σ).tryInsertGlobal busy call rule =
        (.error .registryBusy, { s with desk }) := if_neg hbusy
    simp only [htry]
    exact .desk (hrender.trans (.keepGlobal_none _))

/-- A probe made meanwhile finds the registry in use and leaves it alone. -/
theorem idle_probeInsert (hbusy : busy.registry ≠ .free) (call : Callback σ Desk)
    (s : Session σ) :
    Idle s (s.probeInsert busy call).2 := by
  have hbuild := drift_tryBuild s.registry.id s.desk busy [.raw OrderedMap.empty]
  rw [probeInsert]
  rcases h : s.desk.tryBuild busy [.raw OrderedMap.empty] with ⟨err | e, desk⟩
  · rw [h] at hbuild
    exact .desk hbuild
  · rw [h] at hbuild
    have htry : ({ s with desk } : Session σ).tryInsert busy call e =
        (.error .registryBusy, { s with desk }) := if_neg hbusy
    simp only [htry]
    exact .desk hbuild

theorem idle_probeInsertGlobal (hbusy : busy.registry ≠ .free) (call : Callback σ Desk)
    (s : Session σ) :
    Idle s (s.probeInsertGlobal busy call).2 := by
  have hrender := drift_tryRender s.registry.id s.desk busy "a" OrderedMap.empty
  rw [probeInsertGlobal]
  rcases h : s.desk.tryRender busy "a" OrderedMap.empty with ⟨err | rule, desk⟩
  · rw [h] at hrender
    exact .desk hrender
  · rw [h] at hrender
    have htry : ({ s with desk } : Session σ).tryInsertGlobal busy call rule =
        (.error .registryBusy, { s with desk }) := if_neg hbusy
    simp only [htry]
    exact .desk hrender

theorem idle_observeNow (hbusy : busy.registry ≠ .free) (call : Callback σ Desk)
    (s : Session σ) :
    Idle s (s.observeNow busy call) := by
  have hprobe := idle_probeInsert hbusy call s
  have hprobeGlobal := idle_probeInsertGlobal hbusy call (s.probeInsert busy call).2
  exact (hprobe.trans hprobeGlobal).trans (.desk (.of_eq rfl rfl rfl))

/-- A guard that has no registration any more does nothing when it ends. -/
theorem finish_of_none {s : Session σ} {g : StyleGuard} (hg : g.registration = none)
    (hlog : busy.registry = .free → s.registry.log = []) : s.finish busy call g = (g, s) := by
  rw [finish]
  split
  · next hbusy =>
    obtain ⟨desk, id, config, sink, entries, log⟩ := s
    obtain rfl : log = [] := hlog hbusy
    simp only [working, StyleGuard.finish, hg]
    simp only [collect, Registry.withSink, Registry.clearLog, Desk.note_nil]
  · simp only [StyleGuard.leak, hg, Desk.note_nil]

/-- A guard that has been finished has no registration any more, whether it was released or lost. -/
theorem registration_finish (busy : Busy) (call : Callback σ Desk) (s : Session σ) (g : StyleGuard) :
    (s.finish busy call g).1.registration = none := by
  rw [finish]
  split
  · rw [working]
    simp only [StyleGuard.finish]
    cases hg : g.registration with
    | none => exact hg
    | some reg => rfl
  · simp only [StyleGuard.leak]
    cases hg : g.registration with
    | none => exact hg
    | some reg => rfl

/-- To release a guard and then let it go is to let it go. -/
theorem stepWith_release (call : Busy → Session σ → Callback σ Desk) (s : Session σ) (n : Nat) :
    stepWith call busy s (.release n) = stepWith call busy s (.drop n) := by
  rw [stepWith, stepWith]
  split
  · rfl
  · next g hg =>
    have hnone := registration_finish busy (call busy s)
      { s with desk := s.desk.spendGuard n } g
    have hlog : busy.registry = .free → (({ s with desk := s.desk.spendGuard n } : Session σ).finish
        busy (call busy s) g).2.registry.log = [] := by
      intro hbusy
      rw [finish, if_pos hbusy]
      rfl
    simp only [finish_of_none hnone hlog]

/-- Ending the guard with a number. -/
theorem idle_finish (hbusy : busy.registry ≠ .free) (call : Callback σ Desk) {s : Session σ}
    {n : Nat} {g : StyleGuard} (hg : s.desk.guard? n = some g) :
    Idle s ({ s with desk := s.desk.spendGuard n }.finish busy call g).2 := by
  rw [finish, if_neg hbusy]
  exact .desk (drift_leak hg)

theorem idle_finishGlobal (hbusy : busy.registry ≠ .free) (call : Callback σ Desk) {s : Session σ}
    {n : Nat} {g : GlobalGuard} (hg : s.desk.global? n = some g) :
    Idle s ({ s with desk := s.desk.spendGlobal n }.finishGlobal busy call g).2 := by
  rw [finishGlobal, if_neg hbusy]
  exact .desk (drift_leakGlobal hg)

/-- Plain actions leave the registry and the claims alone while the registry is in use. -/
theorem PlainStep.idle_of_busy {call : Busy → Session σ → Callback σ Desk} {s : Session σ}
    {p : SessionOutcome σ × Session σ} (h : PlainStep call busy s p) (hbusy : busy.registry ≠ .free) :
    Idle s p.2 := by
  cases h with
  | idle h => exact h
  | use ht _ e => exact ht.trans (idle_useNow hbusy _ e)
  | inject selector block => exact idle_injectNow hbusy s selector block
  | observe => exact idle_observeNow hbusy _ s

theorem idle_drop (call : Busy → Session σ → Callback σ Desk) (hbusy : busy.registry ≠ .free)
    (s : Session σ) (n : Nat) : Idle s (stepWith call busy s (.drop n)).2 := by
  rw [stepWith]
  split
  · exact .refl s
  · next g hg => exact idle_finish hbusy _ hg

theorem idle_dropGlobal (call : Busy → Session σ → Callback σ Desk) (hbusy : busy.registry ≠ .free)
    (s : Session σ) (n : Nat) : Idle s (stepWith call busy s (.dropGlobal n)).2 := by
  rw [stepWith]
  split
  · exact .refl s
  · next g hg => exact idle_finishGlobal hbusy _ hg

/-- Whatever is done while the registry is in use, by one action or by several, leaves the registry
and the claims alone. -/
theorem idle_steps (call : Busy → Session σ → Callback σ Desk) :
    (∀ (a : SessionAction) (busy : Busy) (s : Session σ), busy.registry ≠ .free →
      Idle s (stepWith call busy s a).2) ∧
    ∀ (as : List SessionAction) (busy : Busy) (s : Session σ), busy.registry ≠ .free →
      Idle s (runWith call busy s as).2 := by
  refine SessionAction.induct ?within ?reenter ?release ?drop ?dropGlobal ?plain ?nil ?cons
  case within =>
    intro actions ih busy s hbusy
    rw [stepWith]
    split
    · exact .refl s
    · split
      · exact .refl s
      · exact ih _ s (show RegistryUse.read ≠ .free by decide)
  case reenter =>
    intro use inputs inner ih busy s hbusy
    rcases plainStep_reenter call busy s use inputs inner with hplain | ⟨q, hq, hstep⟩
    · exact hplain.idle_of_busy hbusy
    · rw [hstep]
      have hinner : Idle s (stepWith call { busy with compiler := true } s inner).2 := ih _ s hbusy
      exact hinner.trans (hq.idle_of_busy hbusy)
  case release =>
    intro n busy s hbusy
    rw [stepWith_release]
    exact idle_drop call hbusy s n
  case drop =>
    intro n busy s hbusy
    exact idle_drop call hbusy s n
  case dropGlobal =>
    intro n busy s hbusy
    exact idle_dropGlobal call hbusy s n
  case plain =>
    intro a ha busy s hbusy
    exact (plainStep_stepWith call busy s ha).idle_of_busy hbusy
  case nil =>
    intro busy s hbusy
    exact .refl s
  case cons =>
    intro a as iha ihas busy s hbusy
    rw [runWith]
    exact (iha busy s hbusy).trans (ihas busy _ hbusy)

end Session

end ScopedCss
