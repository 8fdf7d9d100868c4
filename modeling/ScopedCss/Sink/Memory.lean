import ScopedCss.Sink.Basic

/-!
# Rules in memory

The plainest sink keeps every rule it is given, in order, under consecutive handles. A variant of
it is fastidious: it refuses every rule that contains a certain text.
-/

namespace ScopedCss

/-- A list of rules. -/
structure MemorySink where
  /-- The rules held. -/
  held : HeldRules
  /-- The number of the next handle. It only grows, so no two rules ever share a handle. The program
  has a word of 64 bits for it, which 2^64 rules, more than a run can take, would use up. -/
  next : Nat
  deriving DecidableEq

namespace MemorySink

/-- A sink without rules. -/
def empty : MemorySink := ⟨[], 0⟩

/-- The rules held, in order. -/
def rules (s : MemorySink) : List StyleRule := s.held.rules

/-- Takes a rule, whatever it is. -/
def add (s : MemorySink) (rule : StyleRule) : Except SinkError Handle × MemorySink :=
  (.ok ⟨s.next⟩, ⟨s.held ++ [(⟨s.next⟩, rule)], s.next + 1⟩)

/-- Gives up the rule with the handle. -/
def retract (s : MemorySink) (h : Handle) : MemorySink := { s with held := s.held.retract h }

/-- Drops all rules. The handles that were given out are not given out again. -/
def clear (s : MemorySink) : MemorySink := { s with held := [] }

/-- How many rules with the given text are held. -/
def count (s : MemorySink) (text : String) : Nat := s.rules.countP fun r => r.text = text

/-- Whether a rule with the given text is held. -/
def contains (s : MemorySink) (text : String) : Bool := s.rules.any fun r => r.text = text

/-- The rules as a style sheet, one to a line. -/
def toCss (s : MemorySink) : String := "\n".intercalate (s.rules.map StyleRule.text)

/-- How the sink is shown in a diagnostic. -/
def describe (s : MemorySink) : String :=
  "InMemorySink \x7b rule_count: " ++ toString s.held.length ++ " \x7d"

/-- What an owner can do: clear. -/
def operate : SinkOperation → MemorySink → MemorySink
  | .clear, s => s.clear
  | _, s => s

instance : Sink MemorySink where
  add := add
  addGlobal := add
  retract := retract
  operate := operate

end MemorySink

/-- Whether the characters `needle` stand next to each other somewhere in a text. -/
def occursIn (needle : List Char) : List Char → Bool
  | [] => needle.isEmpty
  | c :: cs => needle.isPrefixOf (c :: cs) || occursIn needle cs

/-- A list of rules that takes none in which a certain text occurs. -/
structure FastidiousSink where
  /-- The text that must not occur. -/
  unwanted : String
  /-- Where the accepted rules go. -/
  sink : MemorySink
  deriving DecidableEq

namespace FastidiousSink

/-- A sink without rules that refuses the given text. -/
def empty (unwanted : String) : FastidiousSink := ⟨unwanted, .empty⟩

/-- Whether the rule is refused. -/
def refuses (s : FastidiousSink) (rule : StyleRule) : Bool :=
  occursIn s.unwanted.toList rule.text.toList

/-- Takes a rule in which the unwanted text does not occur. -/
def add (s : FastidiousSink) (rule : StyleRule) : Except SinkError Handle × FastidiousSink :=
  if s.refuses rule then (.error (.rejected rule .unwanted), s)
  else
    let (answer, sink) := s.sink.add rule
    (answer, { s with sink })

instance : Sink FastidiousSink where
  add := add
  addGlobal := add
  retract s h := { s with sink := s.sink.retract h }
  operate op s := { s with sink := s.sink.operate op }

end FastidiousSink

end ScopedCss
