import ScopedCss.Sink.Basic

/-!
# Recorded calls

A sink can be wrapped so that every call on it is written down together with its answer. The
wrapped sink behaves as before; the record shows what the registry asked of it, and in which order.
-/

namespace ScopedCss

/-- One call on a sink, with the handle it gave out if it took the rule. -/
inductive SinkCall where
  /-- A rule of a class was offered. -/
  | add (handle : Option Handle) (rule : StyleRule)
  /-- A rule that belongs to no class was offered. -/
  | addGlobal (handle : Option Handle) (rule : StyleRule)
  /-- A rule was taken back. -/
  | retract (handle : Handle)
  deriving DecidableEq

/-- A sink with the record of the calls on it. -/
structure Recorded (σ : Type) where
  /-- The sink. -/
  sink : σ
  /-- The calls, first to last. -/
  calls : List SinkCall

namespace Recorded

variable {σ : Type}

/-- A sink on which nothing has been called yet. -/
def of (s : σ) : Recorded σ := ⟨s, []⟩

/-- Starts a new record. -/
def forget (s : Recorded σ) : Recorded σ := { s with calls := [] }

instance [Sink σ] : Sink (Recorded σ) where
  add s rule :=
    let (answer, sink) := Sink.add s.sink rule
    (answer, ⟨sink, s.calls ++ [.add answer.toOption rule]⟩)
  addGlobal s rule :=
    let (answer, sink) := Sink.addGlobal s.sink rule
    (answer, ⟨sink, s.calls ++ [.addGlobal answer.toOption rule]⟩)
  retract s h := ⟨Sink.retract s.sink h, s.calls ++ [.retract h]⟩
  operate op s := { s with sink := Sink.operate op s.sink }

end Recorded

end ScopedCss
