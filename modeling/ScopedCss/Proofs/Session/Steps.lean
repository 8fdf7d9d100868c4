import ScopedCss.Proofs.Session.Account

/-!
# What an action does

Most actions neither nest nor end a guard (`SessionAction.IsPlain`). As far as the registry and the
guards are concerned such an action does one of four things (`PlainStep`): it works on the rest of
the desk, it inserts an element, it injects a global rule, or it observes. So does the outer call of
a re-entrant one once the inner one has returned.
-/

namespace ScopedCss

namespace SessionAction

/-- The action neither nests nor ends a guard. -/
def IsPlain : SessionAction → Prop
  | .release _ | .drop _ | .dropGlobal _ | .within _ | .reenter _ _ _ => False
  | _ => True

/-- Induction over actions that nest, and over lists of them. -/
theorem induct {P : SessionAction → Prop} {Q : List SessionAction → Prop}
    (within : ∀ actions, Q actions → P (.within actions))
    (reenter : ∀ use inputs inner, P inner → P (.reenter use inputs inner))
    (release : ∀ n, P (.release n)) (drop : ∀ n, P (.drop n)) (dropGlobal : ∀ n, P (.dropGlobal n))
    (plain : ∀ a, IsPlain a → P a) (nil : Q []) (cons : ∀ a as, P a → Q as → Q (a :: as)) :
    (∀ a, P a) ∧ ∀ as, Q as := by
  have hstyle (inputs) : P (.style inputs) := plain _ trivial
  have huse (inputs) : P (.use inputs) := plain _ trivial
  have huseElement (n) : P (.useElement n) := plain _ trivial
  have hinject (selector block) : P (.inject selector block) := plain _ trivial
  have hreadSink : P .readSink := plain _ trivial
  have hdescribe : P .describe := plain _ trivial
  have hobserve : P .observe := plain _ trivial
  have hclose : P .close := plain _ trivial
  refine ⟨fun a => ?_, fun as => ?_⟩
  · exact SessionAction.rec hstyle huse huseElement hinject release drop dropGlobal hreadSink
      hdescribe hobserve hclose within reenter nil cons a
  · exact SessionAction.rec_1 hstyle huse huseElement hinject release drop dropGlobal hreadSink
      hdescribe hobserve hclose within reenter nil cons as

end SessionAction

namespace Desk

variable {id : Nat}

/-- Building an element is work on the desk that no guard takes part in. -/
theorem drift_build (d : Desk) (inputs : List StyleInput) : Drift id d (d.build inputs).2 := by
  unfold build
  have hquiet : ∀ n ∈ Notice.ofBuild (d.compiler.build inputs).1, n.isLeak = false := by
    intro n hn
    obtain ⟨f, -, rfl⟩ := List.mem_map.1 hn
    rfl
  have hcompiler : Drift id d { d with compiler := (d.compiler.build inputs).2 } := .of_eq rfl rfl rfl
  exact hcompiler.trans (.note _ hquiet)

theorem drift_tryBuild (id : Nat) (d : Desk) (busy : Busy) (inputs : List StyleInput) :
    Drift id d (d.tryBuild busy inputs).2 := by
  unfold tryBuild
  split
  · exact .refl d
  · exact drift_build d inputs

theorem note_nil (d : Desk) : d.note [] = d := by
  unfold note
  rw [List.append_nil]

theorem drift_tryRender (id : Nat) (d : Desk) (busy : Busy) (selector : String)
    (block : Declarations) : Drift id d (d.tryRender busy selector block).2 := by
  unfold tryRender
  split
  · exact .refl d
  · exact .of_eq rfl rfl rfl

end Desk

namespace Session

open Desk

variable {σ : Type}

/-- The registry is untouched, and the claims are the same. -/
def Idle (s t : Session σ) : Prop :=
  t.registry = s.registry ∧ Drift s.registry.id s.desk t.desk

namespace Idle

variable {s t u : Session σ}

theorem refl (s : Session σ) : Idle s s := ⟨rfl, .refl _⟩

theorem trans (h : Idle s t) (h' : Idle t u) : Idle s u := by
  obtain ⟨hreg, hdesk⟩ := h
  obtain ⟨hreg', hdesk'⟩ := h'
  rw [hreg] at hdesk'
  exact ⟨hreg'.trans hreg, hdesk.trans hdesk'⟩

theorem desk {d : Desk} (h : Drift s.registry.id s.desk d) : Idle s { s with desk := d } :=
  ⟨rfl, h⟩

end Idle

theorem idle_styleNow (s : Session σ) (e : StyleElement) : Idle s (s.styleNow e).2 :=
  .desk (.of_eq rfl rfl rfl)

/-- Nothing is recorded of a plain action but what it has brought. -/
theorem record_of_isPlain {a : SessionAction} (ha : a.IsPlain) (busy : Busy) (s : Session σ)
    (l : Account) (o : SessionOutcome σ) : l.record busy s a o = l.add o.obtained := by
  cases a <;> first | rfl | cases ha

variable [Sink σ]

/-- What comes of an action that neither nests nor ends a guard. -/
inductive PlainStep (call : Busy → Session σ → Callback σ Desk) (busy : Busy) (s : Session σ) :
    SessionOutcome σ × Session σ → Prop where
  /-- The registry is left alone, and nothing is obtained. -/
  | idle {o : SessionOutcome σ} {t : Session σ} (h : Idle s t) (hinner : o.inner? = none)
      (hobtained : o.obtained = .empty) : PlainStep call busy s (o, t)
  /-- An element is inserted, after some work on the desk. -/
  | use {t u : Session σ} (ht : Idle s t) (hu : Idle s u) (e : StyleElement) :
      PlainStep call busy s (t.useNow busy (call busy u) e)
  /-- A global rule is injected. -/
  | inject (selector : String) (block : Declarations) :
      PlainStep call busy s (s.injectNow busy (call busy s) selector block)
  /-- The registry is tried. -/
  | observe : PlainStep call busy s (.done, s.observeNow busy (call busy s))

/-- No inner call is part of a plain step. -/
theorem PlainStep.inner?_eq_none {call : Busy → Session σ → Callback σ Desk} {busy : Busy}
    {s : Session σ} {p : SessionOutcome σ × Session σ} (h : PlainStep call busy s p) :
    p.1.inner? = none := by
  cases h with
  | idle _ hinner _ => exact hinner
  | use _ _ e =>
    rw [useNow]
    split <;> rfl
  | inject selector block =>
    rw [injectNow]
    split
    · rfl
    · split <;> rfl
  | observe => rfl

variable (call : Busy → Session σ → Callback σ Desk) (busy : Busy) (s : Session σ)

/-- Nothing is done at all. -/
theorem PlainStep.refl {o : SessionOutcome σ} (hinner : o.inner? = none)
    (hobtained : o.obtained = .empty) : PlainStep call busy s (o, s) :=
  .idle (.refl s) hinner hobtained

/-- Styling is a plain step. The registry is left alone, and an element is kept if it can be built.
-/
theorem plainStep_style (inputs : List SessionInput) :
    PlainStep call busy s (stepWith call busy s (.style inputs)) := by
  rw [stepWith]
  split
  · exact .refl call busy s rfl rfl
  · split
    · exact .refl call busy s rfl rfl
    · next inputs' _ =>
      have hbuild := drift_tryBuild s.registry.id s.desk busy inputs'
      split
      · next h =>
        rw [h] at hbuild
        exact .idle (.desk hbuild) rfl rfl
      · next e desk h =>
        rw [h] at hbuild
        have hdesk : Idle s { s with desk } := .desk hbuild
        exact .idle (hdesk.trans (idle_styleNow _ e)) rfl rfl

/-- Using a style is one, too: an element that can be built is inserted. -/
theorem plainStep_use (inputs : List SessionInput) :
    PlainStep call busy s (stepWith call busy s (.use inputs)) := by
  rw [stepWith]
  split
  · exact .refl call busy s rfl rfl
  · split
    · exact .refl call busy s rfl rfl
    · next inputs' _ =>
      have hbuild := drift_tryBuild s.registry.id s.desk busy inputs'
      split
      · next h =>
        rw [h] at hbuild
        exact .idle (.desk (hbuild.trans (.keepGuard_none _))) rfl rfl
      · next e desk h =>
        rw [h] at hbuild
        exact .use (.desk hbuild) (.refl s) e

/-- An action that neither nests nor ends a guard. -/
theorem plainStep_stepWith {a : SessionAction} (ha : a.IsPlain) :
    PlainStep call busy s (stepWith call busy s a) := by
  cases a with
  | release n => cases ha
  | drop n => cases ha
  | dropGlobal n => cases ha
  | within actions => cases ha
  | reenter use inputs inner => cases ha
  | style inputs => exact plainStep_style call busy s inputs
  | use inputs => exact plainStep_use call busy s inputs
  | useElement n =>
    rw [stepWith]
    split
    · exact .refl call busy s rfl rfl
    · split
      · exact .refl call busy s rfl rfl
      · exact .use (.refl s) (.refl s) _
  | inject selector block =>
    cases block with
    | error fault =>
      rw [stepWith]
      split <;> exact .refl call busy s rfl rfl
    | ok block =>
      rw [stepWith]
      split
      · exact .refl call busy s rfl rfl
      · exact .inject selector block
  | readSink =>
    rw [stepWith]
    split
    · exact .refl call busy s rfl rfl
    · split <;> exact .refl call busy s rfl rfl
  | describe =>
    rw [stepWith]
    split <;> exact .refl call busy s rfl rfl
  | observe =>
    rw [stepWith]
    split
    · exact .observe
    · exact .refl call busy s rfl rfl
  | close =>
    have hclose : Idle s { s with desk := { s.desk with isOpen := false } } :=
      .desk (.of_eq rfl rfl rfl)
    exact .idle (o := .closing s.desk.isOpen) hclose rfl rfl

/-- A re-entrant call is plain if the inner one is not reached. Else the inner one comes first, and
the outer one is plain after it. -/
theorem plainStep_reenter (use : Bool) (inputs : List SessionInput) (inner : SessionAction) :
    let p := stepWith call { busy with compiler := true } s inner
    PlainStep call busy s (stepWith call busy s (.reenter use inputs inner)) ∨
    ∃ q, PlainStep call busy p.2 q ∧
      stepWith call busy s (.reenter use inputs inner) = (.reentered (some p) q.1, q.2) := by
  intro p
  rw [stepWith]
  split
  · exact .inl (.refl call busy s rfl rfl)
  · split
    · exact .inl (.refl call busy s rfl rfl)
    · next inputs' _ =>
      split
      · split
        · exact .inl (.idle (.desk (.keepGuard_none _)) rfl rfl)
        · exact .inl (.refl call busy s rfl rfl)
      · have hbuild : Idle p.2 { p.2 with desk := (p.2.desk.build inputs').2 } :=
          .desk (drift_build p.2.desk inputs')
        cases use with
        | true => exact .inr ⟨_, .use hbuild hbuild _, rfl⟩
        | false => exact .inr ⟨_, .idle (hbuild.trans (idle_styleNow _ _)) rfl rfl, rfl⟩

end Session

end ScopedCss
