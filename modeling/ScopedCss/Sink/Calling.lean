import ScopedCss.Sink.Basic

/-!
# Sinks that call back

A sink may do something else before it takes a rule or gives one up, such as asking its owner a
question or ending a guard. What it can reach then is its world; the registry that it works for is
not part of that, because it is in use. Wrapping a sink this way changes what happens to the world
and nothing about the rules.
-/

namespace ScopedCss

/-- What a registry asks of a sink. -/
inductive SinkRequest where
  /-- To take a rule of a class. -/
  | add (rule : StyleRule)
  /-- To take a rule that belongs to no class. -/
  | addGlobal (rule : StyleRule)
  /-- To give up a rule. -/
  | retract (handle : Handle)
  deriving DecidableEq

/-- What a sink does to its world before it does what it is asked. The number says how often it has
been asked before, so a sink need not do the same each time. -/
abbrev Callback (σ ω : Type) : Type := Nat → σ → SinkRequest → ω → ω

/-- A sink with a world, on which it acts each time it is asked for something. -/
structure Calling (σ ω : Type) where
  /-- The sink. -/
  sink : σ
  /-- What the sink can reach. -/
  world : ω
  /-- How often it has been asked for something. -/
  asked : Nat
  /-- What it does when it is asked. -/
  call : Callback σ ω

/-- The sink acts on its world, since it is asked for something, and is left as `sink`. -/
def Calling.answer {σ ω : Type} (s : Calling σ ω) (request : SinkRequest) (sink : σ) : Calling σ ω :=
  ⟨sink, s.call s.asked s.sink request s.world, s.asked + 1, s.call⟩

instance {σ ω : Type} [Sink σ] : Sink (Calling σ ω) where
  add s rule :=
    let (answer, sink) := Sink.add s.sink rule
    (answer, s.answer (.add rule) sink)
  addGlobal s rule :=
    let (answer, sink) := Sink.addGlobal s.sink rule
    (answer, s.answer (.addGlobal rule) sink)
  retract s h := s.answer (.retract h) (Sink.retract s.sink h)
  operate op s := { s with sink := Sink.operate op s.sink }

end ScopedCss
