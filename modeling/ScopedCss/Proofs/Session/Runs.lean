import ScopedCss.Proofs.Session.Guards
import ScopedCss.Sink.Choice

/-!
# Sessions as they come about

Calls on a session come in any order and from any context: at the top, from a function that reads
the sink, from the source of the inputs of another call. Each of them may find a sink that does
whatever it likes when it is asked for something. A bystander keeps the account (`audit`), and the
account says exactly what the registry counts and the sink holds.
-/

namespace ScopedCss

/-- A call on a session. -/
structure SessionCall (σ : Type) where
  /-- What the calls around it use. -/
  busy : Busy
  /-- What the sink does meanwhile. -/
  reaction : Session.Reaction σ
  /-- What is called. -/
  action : SessionAction

namespace Session

open Desk Registry LawfulSink StyleElement

variable {σ : Type} [Sink σ]

/-- Makes a call. -/
def perform (s : Session σ) (c : SessionCall σ) : SessionOutcome σ × Session σ :=
  stepWith (callback c.reaction) c.busy s c.action

/-- Makes calls in turn, and enters each of them into the account. -/
def audit (s : Session σ) (l : Account) : List (SessionCall σ) → Session σ × Account
  | [] => (s, l)
  | c :: calls =>
    audit (s.perform c).2 (l.record c.busy s c.action (s.perform c).1) calls

/-- Whatever is played on a session, in whatever context, can be audited. -/
theorem audit_runWith (reaction : Reaction σ) (busy : Busy) (s : Session σ) (l : Account)
    (actions : List SessionAction) :
    (audit s l (actions.map fun a => ⟨busy, reaction, a⟩)).1 =
      (runWith (callback reaction) busy s actions).2 := by
  induction actions generalizing s l with
  | nil => rfl
  | cons a actions ih =>
    rw [List.map_cons, audit, runWith]
    exact ih _ _

variable [LawfulSink σ]

/-- A new session is balanced: it has no guards, and what the sink holds already belongs to no
class. -/
theorem balanced_new {sink : σ} (hsink : WellNumbered sink) (config : RegistryConfig)
    (hash : ContentHash) : Balanced 0 [] (held sink) (new sink config hash) := by
  refine ⟨rfl, ⟨fun g hg => ?_, fun g hg => ?_⟩, fun n hn => ?_, .of_empty rfl, fun _ => [],
    ⟨⟨fun n e he => ?_, hsink⟩, fun n e he => ?_, ?_⟩, fun _ _ => trivial⟩
  · cases hg
  · cases hg
  · cases hn
  · cases he
  · cases he
  · show (held sink).Perm (held sink ++ [])
    rw [List.append_nil]

/-- After any calls the session is balanced and the account is settled. -/
theorem Balanced.audit {id : Nat} {es : List StyleElement} {ps : HeldRules} {s : Session σ}
    (hs : Balanced id es ps s) {l : Account} (hl : l.Settled s) (calls : List (SessionCall σ)) :
    Balanced id es ps (audit s l calls).1 ∧ (audit s l calls).2.Settled (audit s l calls).1 := by
  induction calls generalizing s l with
  | nil => exact ⟨hs, hl⟩
  | cons c calls ih =>
    have hstep := hs.step c.reaction c.action c.busy s
    exact ih hstep.balanced (hstep.settled l hl)

/-- After any calls the registry counts a class once for every occurrence in the elements of the
account, and the rules held are those of the live classes, those of the account and those that were
there before. The account is made up of the guards that are left and those that ended while the
registry was in use. A call that fails changes neither classes nor rules, and neither does any call
while the registry is in use. To release a guard and let it go ends it once. -/
theorem guards_release_once {sink : σ} (hsink : WellNumbered sink) {config : RegistryConfig}
    {hash : ContentHash} {calls : List (SessionCall σ)} {s : Session σ} {l : Account}
    (h : audit (new sink config hash) .empty calls = (s, l)) :
    (∀ n, s.registry.refCount n = occurrencesInAll n l.elements) ∧
    (((held s.registry.sink).map Prod.fst).Nodup ∧ ∃ ofClasses : HeldRules,
      ofClasses.map Prod.fst = s.registry.entries.values.flatMap RegistryEntry.handles ∧
      (held s.registry.sink).Perm (ofClasses ++ (held sink ++ l.rules))) ∧
    (l.elements.Perm (s.desk.aliveElements ++ s.desk.lostElements) ∧
      l.rules.Perm (s.desk.aliveRules ++ s.desk.lostRules)) ∧
    (∀ c e, (s.perform c).1.error? = some e →
      Unchanged ((s.perform c).1.before s) (s.perform c).2) ∧
    (∀ c, c.busy.registry ≠ .free → (s.perform c).2.registry = s.registry) ∧
    ∀ busy reaction n, s.perform ⟨busy, reaction, .release n⟩ =
      s.perform ⟨busy, reaction, .drop n⟩ := by
  have hnew : Account.empty.Settled (new sink config hash) := ⟨.refl _, .refl _⟩
  obtain ⟨hbal, hsettled⟩ := (balanced_new hsink config hash).audit hnew calls
  rw [h] at hbal hsettled
  refine ⟨fun n => ?_, ⟨?_, ?_⟩, hsettled, fun c e he => ?_, fun c hbusy => ?_, fun _ _ n => ?_⟩
  · have htallies := hbal.tallies.perm (classNamesOfAll_perm hsettled.1.symm)
    rw [htallies.refCount_eq, (occurrences_eq_count n).2]
  · exact hbal.holds.choose_spec.1.sound.numbered.nodup
  · obtain ⟨ofClasses, hhandles, hheld⟩ := hbal.holds.exists_perm
    have hrules := (hsettled.2.append_left (held sink)).append_left ofClasses
    exact ⟨ofClasses, hhandles, hheld.trans hrules.symm⟩
  · exact (hbal.step c.reaction c.action c.busy s).unchanged e he
  · exact ((idle_steps (callback c.reaction)).1 c.action c.busy s hbusy).1
  · exact stepWith_release _ s n

/-- A style guard and a global guard end while the sink is offered a rule for another element: what
they stand for is lost, and stays. The guard of the other element is released. -/
theorem guards_release_once_lost :
    let coloured (colour : String) : SessionInput :=
      .object (.ok (OrderedMap.empty.set "color" (.value (.text colour))))
    let ends : Reaction SinkChoice := fun _ _ _ _ => [.drop 0, .dropGlobal 0]
    let calls : List (SessionCall SinkChoice) :=
      [⟨{}, onOffers [], .use [coloured "red"]⟩,
        ⟨{}, onOffers [], .inject "body" (.ok (OrderedMap.empty.set "margin" (.text "0")))⟩,
        ⟨{}, ends, .use [coloured "blue"]⟩, ⟨{}, onOffers [], .release 1⟩]
    ∃ s l, audit (new (SinkChoice.memory .empty) ⟨.strict⟩ .standard) .empty calls = (s, l) ∧
      s.registry.entries.size = 1 ∧ l.elements.length = 1 ∧ l.rules.length = 1 ∧
      (∀ n, s.registry.refCount n = occurrencesInAll n l.elements) ∧
      ∃ ofClasses : HeldRules,
        ofClasses.map Prod.fst = s.registry.entries.values.flatMap RegistryEntry.handles ∧
        (held s.registry.sink).Perm (ofClasses ++ l.rules) := by
  intro coloured ends calls
  have hsink : WellNumbered (SinkChoice.memory .empty) := wellNumbered_of_held_nil rfl
  rcases h : audit (new (SinkChoice.memory .empty) ⟨.strict⟩ .standard) .empty calls with ⟨s, l⟩
  obtain ⟨hcounts, ⟨-, hheld⟩, -⟩ := guards_release_once hsink h
  have hsizes : (fun p : Session SinkChoice × Account =>
      (p.1.registry.entries.size, p.2.elements.length, p.2.rules.length))
        (audit (new (SinkChoice.memory .empty) ⟨.strict⟩ .standard) .empty calls) = (1, 1, 1) := by
    decide +kernel
  rw [h] at hsizes
  obtain ⟨hsize, hsizes⟩ := Prod.mk.inj hsizes
  obtain ⟨helements, hrules⟩ := Prod.mk.inj hsizes
  exact ⟨s, l, rfl, hsize, helements, hrules, hcounts, hheld⟩

end Session

end ScopedCss
