import ScopedCss.Element
import ScopedCss.Proofs.Sink.Lawful

/-!
# Sinks that list their rules

A listing sink keeps the rules that it takes in the order in which they come, and whether it takes a
rule depends on nothing but the text. So what it holds after it has been offered rules can be written
down at once: what it held before, and then the accepted ones under consecutive numbers.
-/

namespace ScopedCss

namespace HeldRules

/-- Rules under consecutive numbers, the first of which is `n`. -/
def numbered (n : Nat) : List StyleRule → HeldRules
  | [] => []
  | rule :: rules => (⟨n⟩, rule) :: numbered (n + 1) rules

@[simp] theorem rules_numbered (n : Nat) (l : List StyleRule) : (numbered n l).rules = l := by
  induction l generalizing n with
  | nil => rfl
  | cons rule l ih => exact congrArg (rule :: ·) (ih (n + 1))

theorem numbered_append (n : Nat) (l l' : List StyleRule) :
    numbered n (l ++ l') = numbered n l ++ numbered (n + l.length) l' := by
  induction l generalizing n with
  | nil => rfl
  | cons rule l ih =>
    rw [List.cons_append, numbered, numbered, ih, List.length_cons, Nat.add_right_comm, Nat.add_assoc]
    rfl

end HeldRules

/-- A sink that keeps its rules in order, and takes or refuses a rule by its text. -/
class ListingSink (σ : Type) [Sink σ] [LawfulSink σ] where
  /-- Whether a rule with the text is taken. -/
  accepts : σ → String → Bool
  add_of_accepts {s : σ} {rule : StyleRule} : accepts s rule.text = true →
    ∃ h t, Sink.add s rule = (.ok h, t)
  add_of_refuses {s : σ} {rule : StyleRule} : accepts s rule.text = false →
    ∃ e, Sink.add s rule = (.error e, s)
  held_add {s t : σ} {rule : StyleRule} {h : Handle} : Sink.add s rule = (.ok h, t) →
    LawfulSink.held t = LawfulSink.held s ++ [(h, rule)]
  accepts_add {s t : σ} {rule : StyleRule} {h : Handle} : Sink.add s rule = (.ok h, t) →
    accepts t = accepts s

instance : ListingSink MemorySink where
  accepts _ _ := true
  add_of_accepts {s rule} _ := ⟨⟨s.next⟩, (s.add rule).2, rfl⟩
  add_of_refuses h := by cases h
  held_add e := by
    cases e
    rfl
  accepts_add _ := rfl

instance : ListingSink FastidiousSink where
  accepts s text := !occursIn s.unwanted.toList text.toList
  add_of_accepts {s rule} h := by
    have hr : ¬ s.refuses rule = true := by simpa [FastidiousSink.refuses] using h
    exact ⟨_, _, FastidiousSink.add_of_not_refuses hr⟩
  add_of_refuses {s rule} h := by
    have hr : s.refuses rule = true := by simpa [FastidiousSink.refuses] using h
    exact ⟨_, FastidiousSink.add_of_refuses hr⟩
  held_add e := by
    obtain ⟨rfl, rfl⟩ := FastidiousSink.add_ok_eq e
    rfl
  accepts_add e := by
    obtain ⟨rfl, rfl⟩ := FastidiousSink.add_ok_eq e
    rfl

namespace ListingSink

open LawfulSink

variable {σ : Type} [Sink σ] [LawfulSink σ] [ListingSink σ]

/-- The rules of a fragment that the sink takes. -/
def accepted (s : σ) (f : Fragment) : List StyleRule := f.rules.filter fun rule => accepts s rule.text

/-- The sink `t` is what `s` becomes when it takes some rules. -/
structure Listed (s : σ) (rules : List StyleRule) (t : σ) : Prop where
  held : held t = held s ++ HeldRules.numbered (next s) rules
  next : next t = next s + rules.length
  accepts : accepts t = accepts s

namespace Listed

variable {s t u : σ} {rule : StyleRule} {rules rules' : List StyleRule} {h : Handle}

theorem refl (s : σ) : Listed s [] s := ⟨(List.append_nil _).symm, rfl, rfl⟩

theorem trans (h : Listed s rules t) (h' : Listed t rules' u) : Listed s (rules ++ rules') u := by
  refine ⟨?_, ?_, h'.accepts.trans h.accepts⟩
  · rw [h'.held, h.held, h.next, HeldRules.numbered_append, List.append_assoc]
  · rw [h'.next, h.next, List.length_append, Nat.add_assoc]

theorem of_add (e : Sink.add s rule = (.ok h, t)) :
    h = ⟨LawfulSink.next s⟩ ∧ Listed s [rule] t := by
  obtain ⟨hid, hnext, -⟩ := add_ok e
  have hh : h = ⟨LawfulSink.next s⟩ := congrArg Handle.mk hid
  subst hh
  exact ⟨rfl, held_add e, hnext, accepts_add e⟩

end Listed

end ListingSink

end ScopedCss
