import ScopedCss.Sink.Basic
import ScopedCss.Text.Blank

/-!
# Style sheets

A style sheet is a sink that looks at what it is given. It takes a text that has the shape of one
complete rule, a prelude and a balanced block that closes at the very end, and only while it is
attached. It holds at-rules in a region of their own behind all other rules, so that `@media` rules
come after, and win over, the plain rules they refine.
-/

namespace ScopedCss

/-! ## The shape of a rule -/

/-- What is wrong with the braces of a text that is read from the octet `offset` on, at a depth of
`depth` open blocks. -/
def braceFault (depth offset : Nat) : List Char → Option Refusal
  | [] => if depth = 0 then none else some .unbalanced
  | c :: cs =>
    if c = '{' then braceFault (depth + 1) (offset + 1) cs
    else if c = '}' then
      if depth = 0 then some (.unexpectedClose offset)
      else if depth = 1 ∧ cs ≠ [] then some .trailingText
      else braceFault (depth - 1) (offset + 1) cs
    else braceFault depth (offset + c.utf8Size) cs

/-- What is wrong with the text of a rule, surrounding blanks aside. -/
def ruleFault (rule : StyleRule) : Option Refusal :=
  let cs := Text.trim rule.text.toList
  if cs = [] then some .empty
  else if '{' ∉ cs then some .noBlock
  else if (cs.takeWhile (· ≠ '{')).all Text.isBlank then some .noSelector
  else braceFault 0 0 cs

/-! ## Sheets -/

/-- A style sheet with a region for at-rules. -/
structure SheetSink where
  /-- The rules that do not begin with an at-sign. -/
  base : HeldRules
  /-- The rules that begin with an at-sign. -/
  atRules : HeldRules
  /-- The number of the next handle, over both regions; as in `MemorySink`, a word of 64 bits that no
  run uses up. -/
  next : Nat
  /-- Whether new rules are taken. -/
  attached : Bool
  deriving DecidableEq

namespace SheetSink

/-- An attached sheet without rules. -/
def empty : SheetSink := ⟨[], [], 0, true⟩

/-- The number of rules held. -/
def size (s : SheetSink) : Nat := s.base.length + s.atRules.length

/-- Takes a rule of the right shape, while attached, into the region it belongs to. -/
def add (s : SheetSink) (rule : StyleRule) : Except SinkError Handle × SheetSink :=
  if !s.attached then (.error (.detached rule), s)
  else match ruleFault rule with
    | some reason => (.error (.rejected rule reason), s)
    | none =>
      let h : Handle := ⟨s.next⟩
      if rule.isAtRule then
        (.ok h, { s with atRules := s.atRules ++ [(h, rule)], next := s.next + 1 })
      else (.ok h, { s with base := s.base ++ [(h, rule)], next := s.next + 1 })

/-- Gives up the rule with the handle, in whichever region it is. -/
def retract (s : SheetSink) (h : Handle) : SheetSink :=
  if s.base.any fun p => p.1 = h then { s with base := s.base.retract h }
  else { s with atRules := s.atRules.retract h }

/-- The rules of both regions, in the order in which they are rendered. -/
def rules (s : SheetSink) : List StyleRule := s.base.rules ++ s.atRules.rules

/-- The sheet as text: plain rules, then at-rules, each on a line of its own. -/
def toCss (s : SheetSink) : String := String.join (s.rules.map fun r => r.text ++ "\n")

/-- What an owner can do: attach and detach. -/
def operate : SinkOperation → SheetSink → SheetSink
  | .attach, s => { s with attached := true }
  | .detach, s => { s with attached := false }
  | .clear, s => s

instance : Sink SheetSink where
  add := add
  addGlobal := add
  retract := retract
  operate := operate

end SheetSink

end ScopedCss
