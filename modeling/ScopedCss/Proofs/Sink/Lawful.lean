import Mathlib.Data.Multiset.Basic
import ScopedCss.Sink.Choice

/-!
# Lawful sinks

What the registry relies on when it writes to a sink. A lawful sink shows the rules it holds, gives
every rule it takes the next number, and changes nothing when it refuses one. Giving up a rule that
has just been taken leads back to the sink as it was, except that its number is used up; and rules
can be given up in any order.

The list of rules, the list that refuses a text, the style sheet and the sum of these kinds are all
lawful, so what is proved of lawful sinks holds of every sink there is.
-/

namespace ScopedCss

namespace HeldRules

/-- Two rules can be given up in either order, also if both handles are one. -/
theorem retract_comm (held : HeldRules) (h h' : Handle) :
    (held.retract h).retract h' = (held.retract h').retract h := by
  by_cases e : h = h'
  · rw [e]
  · refine List.eraseP_comm fun p _ => ?_
    by_cases hp : p.1 = h
    · exact .inr (by simpa [hp] using e)
    · exact .inl (by simpa using hp)

/-- Giving up a rule whose number nobody in front of it has. -/
theorem retract_append_cons {before after : HeldRules} {h : Handle} (rule : StyleRule)
    (hn : ∀ p ∈ before, p.1 ≠ h) : (before ++ (h, rule) :: after).retract h = before ++ after := by
  have hb : ∀ p ∈ before, ¬ decide (p.1 = h) = true := fun p hp => by simpa using hn p hp
  simp only [retract]
  rw [List.eraseP_append_right _ hb, List.eraseP_cons_of_pos (by simp)]

theorem retract_append_singleton {before : HeldRules} {h : Handle} (rule : StyleRule)
    (hn : ∀ p ∈ before, p.1 ≠ h) : (before ++ [(h, rule)]).retract h = before := by
  rw [retract_append_cons rule hn, List.append_nil]

theorem retract_append (l l' : HeldRules) (h : Handle) :
    (l ++ l').retract h = if l.any fun p => p.1 = h then l.retract h ++ l' else l ++ l'.retract h :=
  List.eraseP_append

theorem sublist_retract (held : HeldRules) (h : Handle) : (held.retract h).Sublist held :=
  List.eraseP_sublist

/-- With distinct handles, giving up a rule takes this rule away and no other. -/
theorem perm_retract {held rest : HeldRules} {h : Handle} {rule : StyleRule}
    (hn : (held.map Prod.fst).Nodup) (hp : held.Perm ((h, rule) :: rest)) :
    (held.retract h).Perm rest := by
  obtain ⟨before, after, rfl⟩ := List.append_of_mem (hp.mem_iff.2 List.mem_cons_self)
  have hne : ∀ p ∈ before, p.1 ≠ h := by
    intro p hm e
    rw [List.map_append, List.map_cons] at hn
    exact (List.nodup_append.1 hn).2.2 p.1 (List.mem_map_of_mem hm) h List.mem_cons_self e
  rw [retract_append_cons rule hne]
  exact (List.perm_middle.symm.trans hp).cons_inv

end HeldRules

/-- A sink that shows what it holds, and numbers the rules it takes. -/
class LawfulSink (σ : Type) [Sink σ] where
  /-- The rules held, with their handles, in the order in which they are rendered. -/
  held : σ → HeldRules
  /-- The number of the next handle. -/
  next : σ → Nat
  /-- The sink with another number for the next handle, and nothing else changed. -/
  withNext : σ → Nat → σ
  withNext_next (s : σ) : withNext s (next s) = s
  next_withNext (s : σ) (n : Nat) : next (withNext s n) = n
  withNext_withNext (s : σ) (m n : Nat) : withNext (withNext s m) n = withNext s n
  held_withNext (s : σ) (n : Nat) : held (withNext s n) = held s
  held_retract (s : σ) (h : Handle) : held (Sink.retract s h) = (held s).retract h
  next_retract (s : σ) (h : Handle) : next (Sink.retract s h) = next s
  retract_withNext (s : σ) (n : Nat) (h : Handle) :
    Sink.retract (withNext s n) h = withNext (Sink.retract s h) n
  retract_comm (s : σ) (h h' : Handle) :
    Sink.retract (Sink.retract s h) h' = Sink.retract (Sink.retract s h') h
  /-- A refusal changes nothing. -/
  add_error {s t : σ} {rule : StyleRule} {e : SinkError} :
    Sink.add s rule = (.error e, t) → t = s
  /-- A rule that is taken gets the next number and a place among the others. -/
  add_ok {s t : σ} {rule : StyleRule} {h : Handle} : Sink.add s rule = (.ok h, t) →
    h.id = next s ∧ next t = next s + 1 ∧
      ∃ before after, held s = before ++ after ∧ held t = before ++ (h, rule) :: after
  /-- Giving up the rule that was taken last leads back, up to its number. -/
  retract_add {s t : σ} {rule : StyleRule} {h : Handle} : Sink.add s rule = (.ok h, t) →
    (∀ p ∈ held s, p.1 ≠ h) → Sink.retract t h = withNext s (next t)
  addGlobal_eq (s : σ) (rule : StyleRule) : Sink.addGlobal s rule = Sink.add s rule
  held_operate (op : SinkOperation) (s : σ) :
    held (Sink.operate op s) = held s ∨ op = .clear ∧ held (Sink.operate op s) = []
  next_operate (op : SinkOperation) (s : σ) : next (Sink.operate op s) = next s

/-! ## The sinks there are -/

instance : LawfulSink MemorySink where
  held := MemorySink.held
  next := MemorySink.next
  withNext s n := { s with next := n }
  withNext_next _ := rfl
  next_withNext _ _ := rfl
  withNext_withNext _ _ _ := rfl
  held_withNext _ _ := rfl
  held_retract _ _ := rfl
  next_retract _ _ := rfl
  retract_withNext _ _ _ := rfl
  retract_comm s h h' := congrArg (MemorySink.mk · s.next) (HeldRules.retract_comm s.held h h')
  add_error h := by cases h
  add_ok {s t rule h} e := by
    cases e
    exact ⟨rfl, rfl, s.held, [], by simp, rfl⟩
  retract_add {s t rule h} e hn := by
    cases e
    exact congrArg (MemorySink.mk · (s.next + 1)) (HeldRules.retract_append_singleton rule hn)
  addGlobal_eq _ _ := rfl
  held_operate op s := by
    cases op
    · exact .inl rfl
    · exact .inl rfl
    · exact .inr ⟨rfl, rfl⟩
  next_operate op s := by cases op <;> rfl

theorem FastidiousSink.add_of_refuses {s : FastidiousSink} {rule : StyleRule}
    (h : s.refuses rule = true) : s.add rule = (.error (.rejected rule .unwanted), s) := if_pos h

theorem FastidiousSink.add_of_not_refuses {s : FastidiousSink} {rule : StyleRule}
    (h : ¬ s.refuses rule = true) :
    s.add rule = (.ok ⟨s.sink.next⟩, { s with sink := (s.sink.add rule).2 }) := if_neg h

/-- What is left of a fastidious sink when it takes a rule: the list behind it takes it, and the
texts it refuses stay as they are. -/
theorem FastidiousSink.add_ok_eq {s t : FastidiousSink} {rule : StyleRule} {h : Handle}
    (e : s.add rule = (.ok h, t)) :
    h = ⟨s.sink.next⟩ ∧ t = { s with sink := (s.sink.add rule).2 } := by
  by_cases hr : s.refuses rule = true
  · rw [add_of_refuses hr] at e
    cases e
  · rw [add_of_not_refuses hr] at e
    cases e
    exact ⟨rfl, rfl⟩

instance : LawfulSink FastidiousSink where
  held s := s.sink.held
  next s := s.sink.next
  withNext s n := { s with sink := { s.sink with next := n } }
  withNext_next _ := rfl
  next_withNext _ _ := rfl
  withNext_withNext _ _ _ := rfl
  held_withNext _ _ := rfl
  held_retract _ _ := rfl
  next_retract _ _ := rfl
  retract_withNext _ _ _ := rfl
  retract_comm s h h' := by
    have := LawfulSink.retract_comm s.sink h h'
    exact congrArg (FastidiousSink.mk s.unwanted) this
  add_error {s t rule e} h := by
    replace h : s.add rule = _ := h
    by_cases hr : s.refuses rule = true
    · rw [FastidiousSink.add_of_refuses hr] at h
      cases h
      rfl
    · rw [FastidiousSink.add_of_not_refuses hr] at h
      cases h
  add_ok {s t rule h} e := by
    obtain ⟨rfl, rfl⟩ := FastidiousSink.add_ok_eq e
    exact ⟨rfl, rfl, s.sink.held, [], by simp, rfl⟩
  retract_add {s t rule h} e hn := by
    obtain ⟨rfl, rfl⟩ := FastidiousSink.add_ok_eq e
    have hadd : Sink.add s.sink rule = (.ok ⟨s.sink.next⟩, (s.sink.add rule).2) := rfl
    exact congrArg (FastidiousSink.mk s.unwanted) (LawfulSink.retract_add hadd hn)
  addGlobal_eq _ _ := rfl
  held_operate op s := LawfulSink.held_operate op s.sink
  next_operate op s := LawfulSink.next_operate op s.sink

namespace SheetSink

/-- A sheet that takes a rule is attached and finds no fault with it. -/
theorem add_ok_eq {s t : SheetSink} {rule : StyleRule} {h : Handle}
    (e : s.add rule = (.ok h, t)) :
    h = ⟨s.next⟩ ∧ t = if rule.isAtRule then
      { s with atRules := s.atRules ++ [(⟨s.next⟩, rule)], next := s.next + 1 }
      else { s with base := s.base ++ [(⟨s.next⟩, rule)], next := s.next + 1 } := by
  unfold add at e
  split at e
  · cases e
  · split at e
    · cases e
    · split at e
      · next hr => cases e; exact ⟨rfl, by rw [if_pos hr]⟩
      · next hr => cases e; exact ⟨rfl, by rw [if_neg hr]⟩

/-- A sheet that refuses a rule is the sheet it was. -/
theorem add_error_eq {s t : SheetSink} {rule : StyleRule} {err : SinkError}
    (e : s.add rule = (.error err, t)) : t = s := by
  unfold add at e
  split at e
  · cases e; rfl
  · split at e
    · cases e; rfl
    · split at e <;> cases e

/-- Whether a region has the handle does not depend on other handles. -/
theorem any_retract {l : HeldRules} {h h' : Handle} (hne : h ≠ h') :
    ((l.retract h).any fun p => p.1 = h') = l.any fun p => p.1 = h' := by
  induction l with
  | nil => rfl
  | cons p l ih =>
    simp only [HeldRules.retract] at ih
    by_cases hp : p.1 = h
    · simp [HeldRules.retract, hp, hne]
    · simp only [HeldRules.retract, List.eraseP_cons, hp, decide_false, cond_false, List.any_cons, ih]

/-- Rules of a sheet can be given up in either order. Both regions are searched for each handle, so
this has to be asked of either region. -/
theorem retract_comm (s : SheetSink) (h h' : Handle) :
    (s.retract h).retract h' = (s.retract h').retract h := by
  by_cases e : h = h'
  · rw [e]
  · have e' : h' ≠ h := fun x => e x.symm
    by_cases hb : (s.base.any fun p => p.1 = h) = true <;>
      by_cases hb' : (s.base.any fun p => p.1 = h') = true <;>
      simp only [retract, hb, hb', any_retract e, any_retract e', if_true, if_false,
        HeldRules.retract_comm s.base h h', HeldRules.retract_comm s.atRules h h',
        Bool.false_eq_true]

theorem held_retract (s : SheetSink) (h : Handle) :
    (s.retract h).base ++ (s.retract h).atRules = (s.base ++ s.atRules).retract h := by
  rw [HeldRules.retract_append]
  unfold retract
  split <;> rfl

/-- The rule that came last to the front region is the one that goes. -/
theorem retract_last_base (s : SheetSink) (rule : StyleRule) (h : Handle)
    (hb : ∀ p ∈ s.base, p.1 ≠ h) :
    SheetSink.retract { s with base := s.base ++ [(h, rule)], next := s.next + 1 } h =
      { s with next := s.next + 1 } := by
  have ha : ((s.base ++ [(h, rule)]).any fun p => p.1 = h) = true := by simp
  simp only [retract]
  rw [if_pos ha, HeldRules.retract_append_singleton rule hb]

/-- The rule that came last to the back region is the one that goes. -/
theorem retract_last_atRule (s : SheetSink) (rule : StyleRule) (h : Handle)
    (hb : ∀ p ∈ s.base, p.1 ≠ h) (ha : ∀ p ∈ s.atRules, p.1 ≠ h) :
    SheetSink.retract { s with atRules := s.atRules ++ [(h, rule)], next := s.next + 1 } h =
      { s with next := s.next + 1 } := by
  have hn : ¬ (s.base.any fun p => p.1 = h) = true := by
    rw [List.any_eq_true]
    rintro ⟨p, hp, e⟩
    exact hb p hp (of_decide_eq_true e)
  simp only [retract]
  rw [if_neg hn, HeldRules.retract_append_singleton rule ha]

end SheetSink

instance : LawfulSink SheetSink where
  held s := s.base ++ s.atRules
  next := SheetSink.next
  withNext s n := { s with next := n }
  withNext_next _ := rfl
  next_withNext _ _ := rfl
  withNext_withNext _ _ _ := rfl
  held_withNext _ _ := rfl
  held_retract := SheetSink.held_retract
  next_retract s h := by
    show (s.retract h).next = s.next
    unfold SheetSink.retract
    split <;> rfl
  retract_withNext s n h := by
    show SheetSink.retract _ h = SheetSink.mk (s.retract h).base (s.retract h).atRules n
      (s.retract h).attached
    unfold SheetSink.retract
    split <;> rfl
  retract_comm := SheetSink.retract_comm
  add_error := SheetSink.add_error_eq
  add_ok {s t rule h} e := by
    obtain ⟨rfl, rfl⟩ := SheetSink.add_ok_eq e
    by_cases hr : rule.isAtRule = true
    · rw [if_pos hr]
      exact ⟨rfl, rfl, s.base ++ s.atRules, [], by simp, by simp⟩
    · rw [if_neg hr]
      exact ⟨rfl, rfl, s.base, s.atRules, rfl, by simp⟩
  retract_add {s t rule h} e hn := by
    obtain ⟨rfl, rfl⟩ := SheetSink.add_ok_eq e
    have hb : ∀ p ∈ s.base, p.1 ≠ (⟨s.next⟩ : Handle) := fun p hp =>
      hn p (List.mem_append_left _ hp)
    have ha : ∀ p ∈ s.atRules, p.1 ≠ (⟨s.next⟩ : Handle) := fun p hp =>
      hn p (List.mem_append_right _ hp)
    by_cases hr : rule.isAtRule = true
    · rw [if_pos hr]
      exact SheetSink.retract_last_atRule _ rule _ hb ha
    · rw [if_neg hr]
      exact SheetSink.retract_last_base _ rule _ hb
  addGlobal_eq _ _ := rfl
  held_operate op s := by cases op <;> exact .inl rfl
  next_operate op s := by cases op <;> rfl

namespace SinkChoice

/-- The number of the next handle. -/
def next : SinkChoice → Nat
  | .memory s => s.next
  | .fastidious s => s.sink.next
  | .sheet s => s.next

/-- The rules held, with their handles. -/
def held : SinkChoice → HeldRules
  | .memory s => s.held
  | .fastidious s => s.sink.held
  | .sheet s => s.base ++ s.atRules

/-- The sink with another number for the next handle. -/
def withNext (n : Nat) : SinkChoice → SinkChoice
  | .memory s => .memory (LawfulSink.withNext s n)
  | .fastidious s => .fastidious (LawfulSink.withNext s n)
  | .sheet s => .sheet (LawfulSink.withNext s n)

end SinkChoice

instance : LawfulSink SinkChoice where
  held := SinkChoice.held
  next := SinkChoice.next
  withNext s n := s.withNext n
  withNext_next s := by cases s <;> rfl
  next_withNext s _ := by cases s <;> rfl
  withNext_withNext s _ _ := by cases s <;> rfl
  held_withNext s _ := by cases s <;> rfl
  held_retract s h := by
    cases s with
    | memory s => exact LawfulSink.held_retract s h
    | fastidious s => exact LawfulSink.held_retract s h
    | sheet s => exact LawfulSink.held_retract s h
  next_retract s h := by
    cases s with
    | memory s => exact LawfulSink.next_retract s h
    | fastidious s => exact LawfulSink.next_retract s h
    | sheet s => exact LawfulSink.next_retract s h
  retract_withNext s n h := by
    cases s with
    | memory s => exact congrArg SinkChoice.memory (LawfulSink.retract_withNext s n h)
    | fastidious s => exact congrArg SinkChoice.fastidious (LawfulSink.retract_withNext s n h)
    | sheet s => exact congrArg SinkChoice.sheet (LawfulSink.retract_withNext s n h)
  retract_comm s h h' := by
    cases s with
    | memory s => exact congrArg SinkChoice.memory (LawfulSink.retract_comm s h h')
    | fastidious s => exact congrArg SinkChoice.fastidious (LawfulSink.retract_comm s h h')
    | sheet s => exact congrArg SinkChoice.sheet (LawfulSink.retract_comm s h h')
  add_error {s t rule e} h := by
    obtain ⟨h₁, h₂⟩ := Prod.mk.inj h
    cases s with
    | memory s => cases h₁
    | fastidious s =>
      rw [← h₂]
      exact congrArg SinkChoice.fastidious (LawfulSink.add_error (Prod.ext h₁ rfl))
    | sheet s =>
      rw [← h₂]
      exact congrArg SinkChoice.sheet (LawfulSink.add_error (Prod.ext h₁ rfl))
  add_ok {s t rule h} e := by
    obtain ⟨h₁, h₂⟩ := Prod.mk.inj e
    cases s with
    | memory s =>
      rw [← h₂]
      exact LawfulSink.add_ok (s := s) (Prod.ext h₁ rfl)
    | fastidious s =>
      rw [← h₂]
      exact LawfulSink.add_ok (s := s) (Prod.ext h₁ rfl)
    | sheet s =>
      rw [← h₂]
      exact LawfulSink.add_ok (s := s) (Prod.ext h₁ rfl)
  retract_add {s t rule h} e hn := by
    obtain ⟨h₁, h₂⟩ := Prod.mk.inj e
    cases s with
    | memory s =>
      rw [← h₂]
      exact congrArg SinkChoice.memory (LawfulSink.retract_add (s := s) (Prod.ext h₁ rfl) hn)
    | fastidious s =>
      rw [← h₂]
      exact congrArg SinkChoice.fastidious (LawfulSink.retract_add (s := s) (Prod.ext h₁ rfl) hn)
    | sheet s =>
      rw [← h₂]
      exact congrArg SinkChoice.sheet (LawfulSink.retract_add (s := s) (Prod.ext h₁ rfl) hn)
  addGlobal_eq _ _ := rfl
  held_operate op s := by
    cases s with
    | memory s => exact LawfulSink.held_operate op s
    | fastidious s => exact LawfulSink.held_operate op s
    | sheet s => exact LawfulSink.held_operate op s
  next_operate op s := by
    cases s with
    | memory s => exact LawfulSink.next_operate op s
    | fastidious s => exact LawfulSink.next_operate op s
    | sheet s => exact LawfulSink.next_operate op s

end ScopedCss
