import ScopedCss.Proofs.Registry.Simulation
import ScopedCss.Proofs.Session.InUse

/-!
# Working on the registry of a session

A session hands its registry a sink that calls back. What comes of that for the registry is what
would come of it over the sink alone, because the callback never reaches the rules; and the desk
keeps its claims, because everything that the callback does happens while the registry is in use.
-/

namespace ScopedCss

namespace Session

open Desk Registry

variable {σ : Type}

/-- A sink that calls back, and the same sink for itself; the claims on the desk are those of `d`. -/
structure Shadow (call : Callback σ Desk) (id : Nat) (d : Desk) (c : Calling σ Desk) (s : σ) :
    Prop where
  sink : c.sink = s
  call : c.call = call
  world : Drift id d c.world

/-- A callback that leaves the claims alone. -/
def Harmless (id : Nat) (call : Callback σ Desk) : Prop :=
  ∀ asked sink request d, Drift id d (call asked sink request d)

/-- Working on the registry does to it what would be done to it over the sink alone. -/
theorem working_eq {α : Type} {s : Session σ} {call : Callback σ Desk}
    {f : Registry (Calling σ Desk) → α × Registry (Calling σ Desk)} {k : Registry σ → α × Registry σ}
    (hf : ∀ q r, Alike (Shadow call s.registry.id s.desk) q r →
      AlikeAfter (Shadow call s.registry.id s.desk) (f q) (k r)) :
    ∃ d, Drift s.registry.id s.desk d ∧
      s.working call f = ((k s.registry).1, collect d (k s.registry).2) := by
  have hstart : Alike (Shadow call s.registry.id s.desk)
      (s.registry.withSink ⟨s.registry.sink, s.desk, 0, call⟩) s.registry :=
    ⟨rfl, rfl, rfl, rfl, rfl, rfl, .refl _⟩
  have hafter := hf _ _ hstart
  rcases hq : f (s.registry.withSink ⟨s.registry.sink, s.desk, 0, call⟩) with ⟨a, q⟩
  rw [hq] at hafter
  obtain ⟨hanswer, h⟩ := hafter
  have hback : q.withSink q.sink.sink = (k s.registry).2 := by
    rw [h.sink.sink, withSink, h.id, h.config, h.entries, h.log]
  refine ⟨q.sink.world, h.sink.world, ?_⟩
  simp only [working, hq, hback]
  rw [← hanswer]

variable [Sink σ]

/-- What a sink does when it is asked for something leaves the claims alone. -/
theorem harmless_callback (reaction : Reaction σ) (busy : Busy) (s : Session σ) :
    Harmless s.registry.id (callback reaction busy s) := by
  intro asked sink request d
  have hwrite : RegistryUse.write ≠ .free := by decide
  exact ((idle_steps _).2 _ { busy with registry := .write } { s with desk := d } hwrite).2

/-- A sink that calls back answers as the sink alone does, whatever its callback does, and a
harmless callback goes on drifting. -/
theorem simulation_shadow {call : Callback σ Desk} {id : Nat} (hcall : Harmless id call) (d : Desk) :
    Sink.Simulation (Shadow call id d) := by
  have hstep : ∀ {c : Calling σ Desk} {s : σ}, Shadow call id d c s → ∀ request t,
      Shadow call id d (c.answer request t) t := by
    intro c s h request t
    refine ⟨rfl, h.call, ?_⟩
    rw [Calling.answer, h.call]
    exact h.world.trans (hcall c.asked c.sink request c.world)
  refine ⟨fun {c s} h rule => ?_, fun {c s} h rule => ?_, fun {c s} h handle => ?_⟩
  · obtain rfl := h.sink
    exact ⟨rfl, hstep h (.add rule) _⟩
  · obtain rfl := h.sink
    exact ⟨rfl, hstep h (.addGlobal rule) _⟩
  · obtain rfl := h.sink
    exact hstep h (.retract handle) _

variable {s : Session σ} {call : Callback σ Desk}

theorem working_insert (hcall : Harmless s.registry.id call) (e : StyleElement) :
    ∃ d, Drift s.registry.id s.desk d ∧ (s.working call fun r => r.insert e) =
      ((s.registry.insert e).1, collect d (s.registry.insert e).2) :=
  working_eq (k := fun r => r.insert e) fun _ _ h => h.insert (simulation_shadow hcall s.desk) e

theorem working_insertGlobal (hcall : Harmless s.registry.id call) (rule : StyleRule) :
    ∃ d, Drift s.registry.id s.desk d ∧ (s.working call fun r => r.insertGlobal rule) =
      ((s.registry.insertGlobal rule).1, collect d (s.registry.insertGlobal rule).2) :=
  working_eq (k := fun r => r.insertGlobal rule) fun _ _ h =>
    h.insertGlobal (simulation_shadow hcall s.desk) rule

/-- Finishing a guard over a sink that calls back releases its registration as over the sink alone.
-/
theorem working_finish (hcall : Harmless s.registry.id call) {g : StyleGuard} {reg : Registration}
    (hg : g.registration = some reg) : ∃ d, Drift s.registry.id s.desk d ∧
      s.working call g.finish = (⟨none, g.element⟩, collect d (s.registry.release reg)) := by
  have hend : ∀ q r, Alike (Shadow call s.registry.id s.desk) q r →
      AlikeAfter (Shadow call s.registry.id s.desk) (g.finish q)
        ((⟨none, g.element⟩ : StyleGuard), r.release reg) := by
    intro q r h
    rw [StyleGuard.finish, hg]
    exact ⟨rfl, h.release (simulation_shadow hcall s.desk) reg⟩
  exact working_eq hend

/-- Finishing a global guard over a sink that calls back gives its rule up as over the sink alone. -/
theorem working_finishGlobal (hcall : Harmless s.registry.id call) {g : GlobalGuard}
    {reg : GlobalRegistration} (hg : g.registration = some reg) :
    ∃ d, Drift s.registry.id s.desk d ∧
      s.working call g.finish = (⟨none⟩, collect d (s.registry.releaseGlobal reg)) := by
  have hend : ∀ q r, Alike (Shadow call s.registry.id s.desk) q r →
      AlikeAfter (Shadow call s.registry.id s.desk) (g.finish q)
        ((⟨none⟩ : GlobalGuard), r.releaseGlobal reg) := by
    intro q r h
    rw [GlobalGuard.finish, hg]
    exact ⟨rfl, h.releaseGlobal (simulation_shadow hcall s.desk) reg⟩
  exact working_eq hend

end Session

end ScopedCss
