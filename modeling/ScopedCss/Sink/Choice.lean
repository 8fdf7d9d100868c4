import ScopedCss.Sink.Memory
import ScopedCss.Sink.Sheet

/-!
# A sink chosen at run time

The kind of a sink is usually fixed by its type. Where it is chosen while the program runs, or
where sinks of several kinds stand side by side, this sum of the kinds is the type.
-/

namespace ScopedCss

/-- A sink of one of the kinds there are. -/
inductive SinkChoice where
  /-- A list of rules. -/
  | memory (s : MemorySink)
  /-- A list of rules that refuses a certain text. -/
  | fastidious (s : FastidiousSink)
  /-- A style sheet. -/
  | sheet (s : SheetSink)
  deriving DecidableEq

namespace SinkChoice

instance : Inhabited SinkChoice := ⟨.memory .empty⟩

/-- Hands a rule to the sink, as a rule of a class. -/
def add : SinkChoice → StyleRule → Except SinkError Handle × SinkChoice
  | .memory s, rule => let (answer, s) := s.add rule; (answer, .memory s)
  | .fastidious s, rule => let (answer, s) := s.add rule; (answer, .fastidious s)
  | .sheet s, rule => let (answer, s) := s.add rule; (answer, .sheet s)

/-- Takes a rule back from the sink. -/
def retract : SinkChoice → Handle → SinkChoice
  | .memory s, h => .memory (Sink.retract s h)
  | .fastidious s, h => .fastidious (Sink.retract s h)
  | .sheet s, h => .sheet (Sink.retract s h)

/-- What the owner does to the sink. -/
def operate (op : SinkOperation) : SinkChoice → SinkChoice
  | .memory s => .memory (Sink.operate op s)
  | .fastidious s => .fastidious (Sink.operate op s)
  | .sheet s => .sheet (Sink.operate op s)

instance : Sink SinkChoice where
  add := add
  addGlobal := add
  retract := retract
  operate := operate

/-- The rules held, in the order in which they are rendered. -/
def rules : SinkChoice → List StyleRule
  | .memory s => s.rules
  | .fastidious s => s.sink.rules
  | .sheet s => s.rules

/-- The rules as text. -/
def toCss : SinkChoice → String
  | .memory s => s.toCss
  | .fastidious s => s.sink.toCss
  | .sheet s => s.toCss

end SinkChoice

end ScopedCss
