import ScopedCss.Proofs.Sink.Lawful

/-!
# Sinks that stand by their refusals

A sink is steady if it does not refuse a rule because of others that it has taken. The list takes every
rule, the fastidious one looks at the text, and the sheet looks at the text and at whether it is
attached; nothing of this changes when a rule is taken. What a steady sink says against several rules
can therefore be asked before it is offered the first one.
-/

namespace ScopedCss

/-! ## Refusals -/

section Refusals

variable {σ : Type} [Sink σ] {s : σ} {rule : StyleRule}

/-- What the sink says against a rule, if anything. -/
def Sink.refusal (s : σ) (rule : StyleRule) : Option SinkError :=
  match (Sink.add s rule).1 with
  | .ok _ => none
  | .error e => some e

theorem Sink.refusal_eq_none : refusal s rule = none ↔ ∃ h t, add s rule = (.ok h, t) := by
  unfold refusal
  rcases add s rule with ⟨e | h, t⟩
  · simp
  · simp

theorem Sink.refusal_of_add_error {t : σ} {e : SinkError} (h : add s rule = (.error e, t)) :
    refusal s rule = some e := by
  rw [refusal, h]

end Refusals

/-- A sink whose refusals do not depend on the rules it has taken. -/
class SteadySink (σ : Type) [Sink σ] : Prop where
  refusal_add {s t : σ} {rule : StyleRule} {h : Handle} :
    Sink.add s rule = (.ok h, t) → Sink.refusal t = Sink.refusal s

theorem Sink.refusal_add_snd {σ : Type} [Sink σ] [SteadySink σ] (s : σ) (rule : StyleRule)
    {h : Handle} (hadd : (add s rule).1 = .ok h) : refusal (add s rule).2 = refusal s :=
  SteadySink.refusal_add (Prod.ext hadd rfl)

/-! ## The sinks there are -/

theorem MemorySink.refusal_eq (s : MemorySink) (rule : StyleRule) : Sink.refusal s rule = none := rfl

instance : SteadySink MemorySink where
  refusal_add _ := by
    funext rule
    rw [MemorySink.refusal_eq, MemorySink.refusal_eq]

theorem FastidiousSink.refusal_eq (s : FastidiousSink) (rule : StyleRule) :
    Sink.refusal s rule = if s.refuses rule then some (.rejected rule .unwanted) else none := by
  by_cases hr : s.refuses rule = true
  · rw [if_pos hr]
    exact Sink.refusal_of_add_error (add_of_refuses hr)
  · rw [if_neg hr]
    exact Sink.refusal_eq_none.2 ⟨_, _, add_of_not_refuses hr⟩

instance : SteadySink FastidiousSink where
  refusal_add e := by
    obtain ⟨-, rfl⟩ := FastidiousSink.add_ok_eq e
    funext rule
    rw [FastidiousSink.refusal_eq, FastidiousSink.refusal_eq]
    rfl

/-- What a sheet says against a rule: that it is detached, if it is, and otherwise the fault in the
text. -/
theorem SheetSink.refusal_eq (s : SheetSink) (rule : StyleRule) :
    Sink.refusal s rule =
      if s.attached then (ruleFault rule).map (.rejected rule) else some (.detached rule) := by
  show (match (s.add rule).1 with | .ok _ => none | .error e => some e) = _
  unfold add
  cases s.attached with
  | false => rfl
  | true =>
    cases ruleFault rule with
    | some reason => rfl
    | none => cases rule.isAtRule <;> rfl

instance : SteadySink SheetSink where
  refusal_add {s t rule h} e := by
    obtain ⟨-, rfl⟩ := SheetSink.add_ok_eq e
    funext rule'
    rw [SheetSink.refusal_eq, SheetSink.refusal_eq]
    cases rule.isAtRule <;> rfl

instance : SteadySink SinkChoice where
  refusal_add {s t rule h} e := by
    obtain ⟨hadd, ht⟩ := Prod.mk.inj e
    subst ht
    cases s with
    | memory s => exact Sink.refusal_add_snd s rule hadd
    | fastidious s => exact Sink.refusal_add_snd s rule hadd
    | sheet s => exact Sink.refusal_add_snd s rule hadd

end ScopedCss
