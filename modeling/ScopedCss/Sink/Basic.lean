import ScopedCss.Rule

/-!
# Sinks

A sink is where rules go: it takes a rule and answers with a handle, or refuses it with an error,
and takes a rule back when it is given the handle. What a sink does with the rules it holds is its
own affair; the registry knows it through this interface only.
-/

namespace ScopedCss

/-- The ticket for one rule that a sink has taken. -/
structure Handle where
  /-- The number that the sink gave to the rule. -/
  id : Nat
  deriving DecidableEq

/-- Why a sink does not take the text of a rule. -/
inductive Refusal where
  /-- There is nothing in it. -/
  | empty
  /-- It has no block. -/
  | noBlock
  /-- Nothing stands before the block. -/
  | noSelector
  /-- A block is closed that was never opened, at the given octet of the trimmed text. -/
  | unexpectedClose (offset : Nat)
  /-- Something follows the block. -/
  | trailingText
  /-- A block is never closed. -/
  | unbalanced
  /-- The sink does not want it. -/
  | unwanted
  deriving DecidableEq

/-- The wording of a refusal. -/
def Refusal.message : Refusal → String
  | .empty => "rule is empty"
  | .noBlock => "rule has no declaration block"
  | .noSelector => "rule has no selector"
  | .unexpectedClose offset => "unexpected '\x7d' at byte " ++ toString offset
  | .trailingText => "trailing text after rule"
  | .unbalanced => "unbalanced braces"
  | .unwanted => "refused"

/-- Why a sink has not taken a rule. -/
inductive SinkError where
  /-- The sink does not take such a text. -/
  | rejected (rule : StyleRule) (reason : Refusal)
  /-- The sink has no style sheet to write to. -/
  | detached (rule : StyleRule)
  deriving DecidableEq

/-- The message for a rule that was not taken. -/
def SinkError.message : SinkError → String
  | .rejected rule reason => "could not add style rule " ++ rule.text ++ ": " ++ reason.message
  | .detached rule => "could not add style rule " ++ rule.text ++ ": stylesheet is detached"

/-- What can be done to a sink by its owner, past the registry that writes to it. -/
inductive SinkOperation where
  /-- Connects the sink to a style sheet. -/
  | attach
  /-- Disconnects it: held rules stay, new ones are refused. -/
  | detach
  /-- Drops all rules. -/
  | clear
  deriving DecidableEq

/-- A place for rules. -/
class Sink (σ : Type) where
  /-- Takes a rule of a class. -/
  add : σ → StyleRule → Except SinkError Handle × σ
  /-- Takes a rule that belongs to no class. -/
  addGlobal : σ → StyleRule → Except SinkError Handle × σ
  /-- Gives up the rule with the handle; without such a rule, nothing happens. -/
  retract : σ → Handle → σ
  /-- What the owner does to the sink; an operation that a sink does not know has no effect. -/
  operate : SinkOperation → σ → σ

/-- Gives up the rules of several handles, one after the other. -/
def Sink.retractAll {σ : Type} [Sink σ] (s : σ) (hs : List Handle) : σ :=
  hs.foldl Sink.retract s

/-! ## Held rules -/

/-- The rules that a sink holds, with their handles, in the order in which they came. -/
abbrev HeldRules := List (Handle × StyleRule)

namespace HeldRules

/-- The rules without their handles. -/
def rules (held : HeldRules) : List StyleRule := held.map Prod.snd

/-- The rules that are left when the one with the handle is given up. -/
def retract (held : HeldRules) (h : Handle) : HeldRules := held.eraseP fun p => p.1 = h

end HeldRules

end ScopedCss
