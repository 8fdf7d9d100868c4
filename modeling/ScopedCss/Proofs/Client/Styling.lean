import ScopedCss.Proofs.Client.Counts
import ScopedCss.Proofs.Client.Rollback
import ScopedCss.Proofs.Registry.Holdings

/-!
# The sink holds the live styling

Over strict histories in which a class always comes with the same rules, the sink holds exactly
what the outstanding registrations ask for: the rules of every class in their trees, once, however
many registrations and paths lead to it, and the rule of every global registration. So nothing is
missing, nothing is stale, and nothing is held once everything has been given back.

Two invariants meet here: what the sink holds for the classes that have an entry (`Holds`), and
which classes have one (`Tallies`).
-/

namespace ScopedCss

open StyleElement

/-- The rules that belong to a class, among some fragments: those of the first one of the class. -/
def rulesOf (fs : List Fragment) (n : ClassName) : List StyleRule :=
  ((fs.find? fun f => f.className = n).map Fragment.rules).getD []

/-- Fragments of one class have the same rules. -/
def Consistent (fs : List Fragment) : Prop :=
  ∀ f ∈ fs, ∀ f' ∈ fs, f.className = f'.className → f.rules = f'.rules

/-- If a class always comes with the same rules, it does not matter which of its fragments is looked
up. -/
theorem Consistent.rulesOf_eq {fs : List Fragment} (h : Consistent fs) {f : Fragment} (hf : f ∈ fs) :
    rulesOf fs f.className = f.rules := by
  unfold rulesOf
  cases hfind : fs.find? fun f' => f'.className = f.className with
  | none =>
    have hne := List.find?_eq_none.1 hfind f hf
    exact absurd (decide_eq_true rfl) hne
  | some f' =>
    have hname : f'.className = f.className := by simpa using List.find?_some hfind
    exact h f' (List.mem_of_find?_eq_some hfind) f hf hname

theorem Consistent.subset {fs gs : List Fragment} (h : Consistent fs) (hsub : ∀ f ∈ gs, f ∈ fs) :
    Consistent gs :=
  fun f hf f' hf' => h f (hsub f hf) f' (hsub f' hf')

/-- Flattening a tree to its rules is flattening it to its fragments first. -/
theorem flattenRules_eq :
    (∀ e : StyleElement, e.flattenRules = e.fragments.flatMap Fragment.rules) ∧
    ∀ es : List StyleElement, flattenAll es = (fragmentsOfAll es).flatMap Fragment.rules := by
  refine StyleElement.induct (fun cs owned ih => ?_) rfl fun e es ihe ihes => ?_
  · rw [flattenRules, fragments, List.flatMap_append, ih]
    cases owned with
    | none => rfl
    | some f => rw [Option.toList_some, List.flatMap_singleton]; rfl
  · rw [flattenAll, fragmentsOfAll, List.flatMap_append, ihe, ihes]

theorem mem_fragmentsOfAll {es : List StyleElement} {f : Fragment} :
    f ∈ fragmentsOfAll es ↔ ∃ e ∈ es, f ∈ e.fragments := by
  induction es with
  | nil => simp [fragmentsOfAll]
  | cons e es ih => simp [fragmentsOfAll, ih]

/-- The classes in the trees of the outstanding registrations, each one once. -/
def Ledger.liveClasses (l : Ledger) : List ClassName := (classNamesOfAll l.elements).dedup

/-- The rules that the outstanding registrations ask for: those of every live class once, and the
global ones. -/
def Ledger.rules (l : Ledger) : List StyleRule :=
  l.liveClasses.flatMap (rulesOf (fragmentsOfAll l.elements)) ++ l.globals.map fun p => p.2.rule

namespace Ledger

theorem mem_liveClasses {l : Ledger} {n : ClassName} :
    n ∈ l.liveClasses ↔ ∃ f ∈ fragmentsOfAll l.elements, f.className = n := by
  rw [liveClasses, List.mem_dedup, ← fragmentsOfAll_classNames, List.mem_map]

/-- Every rule of a registered element is asked for. -/
theorem mem_rules {l : Ledger} (hl : Consistent (fragmentsOfAll l.elements)) {e : StyleElement}
    (he : e ∈ l.elements) {rule : StyleRule} (hrule : rule ∈ e.flattenRules) : rule ∈ l.rules := by
  rw [flattenRules_eq.1] at hrule
  obtain ⟨f, hf, hrule⟩ := List.mem_flatMap.1 hrule
  have hmem : f ∈ fragmentsOfAll l.elements := mem_fragmentsOfAll.2 ⟨e, he, hf⟩
  refine List.mem_append_left _ (List.mem_flatMap.2 ⟨f.className, ?_, ?_⟩)
  · exact mem_liveClasses.2 ⟨f, hmem, rfl⟩
  · rw [hl.rulesOf_eq hmem]
    exact hrule

theorem rules_eq_nil {l : Ledger} (hregs : l.registrations = []) (hglobals : l.globals = []) :
    l.rules = [] := by
  rw [rules, liveClasses, elements, hregs, hglobals]
  rfl

end Ledger

namespace Client

open LawfulSink

/-- The fragments in the elements that are inserted, or are tried to be inserted, into a registry. -/
def offered (k : Nat) (actions : List ClientAction) : List Fragment :=
  actions.flatMap fun
    | .insert i e => if i = k then e.fragments else []
    | _ => []

theorem mem_offered {k : Nat} {actions : List ClientAction} {e : StyleElement} {f : Fragment}
    (he : ClientAction.insert k e ∈ actions) (hf : f ∈ e.fragments) : f ∈ offered k actions := by
  refine List.mem_flatMap.2 ⟨_, he, ?_⟩
  simp only [if_pos]
  exact hf

variable {σ : Type} [Sink σ]

/-- The account of registry `k` after a history of actions. -/
def ledger (c : Client σ) (k : Nat) (actions : List ClientAction) : Ledger :=
  (c.audit k (actions.map .action)).2

/-- No change touches the settings. -/
theorem Change.config {k : Nat} {r t : Registry σ} {l l' : Ledger} {a : ClientAction}
    (h : Change k r l a t l') : t.config = r.config := by
  cases h with
  | @inserted e n t h | @insertFailed e err t h =>
    have hc := (Registry.continues_insertions.1 e r).config
    rw [h] at hc
    exact hc
  | released h =>
    rw [Registry.removeElement_eq]
    exact (Registry.continues_relinquishAll r _).config
  | @insertedGlobal rule n reg t h | @insertGlobalFailed rule err t h =>
    have hc := (Registry.continues_insertGlobal r rule).config
    rw [h] at hc
    exact hc
  | releasedGlobal _ _ => exact (Registry.continues_releaseGlobal r _).config
  | operated => rfl
  | noted _ => rfl
  | idle => rfl

/-- What is registered was registered before, or has just been inserted. -/
theorem Change.elements {k : Nat} {r t : Registry σ} {l l' : Ledger} {a : ClientAction}
    (h : Change k r l a t l') : ∀ e ∈ l'.elements, e ∈ l.elements ∨ a = .insert k e := by
  intro e' he'
  cases h with
  | @inserted e n t h =>
    rw [Ledger.elements, List.map_append] at he'
    rcases List.mem_append.1 he' with he' | he'
    · exact .inl he'
    · rw [List.mem_singleton.1 he']
      exact .inr rfl
  | @released n reg rest h =>
    obtain ⟨p, hp, rfl⟩ := List.mem_map.1 he'
    exact .inl (List.mem_map_of_mem (h.mem_iff.2 (List.mem_cons_of_mem _ hp)))
  | insertFailed _ | insertedGlobal _ | insertGlobalFailed _ | releasedGlobal _ _ | operated
  | noted _ | idle => exact .inl he'

variable [LawfulSink σ]

/-- What is registered of global rules is held, in strict mode. -/
theorem Change.taken {k : Nat} {r t : Registry σ} {l l' : Ledger} {a : ClientAction}
    (h : Change k r l a t l') (hstrict : r.config.mode = .strict)
    (hl : ∀ p ∈ l.globals, p.2.handle.isSome) : ∀ p ∈ l'.globals, p.2.handle.isSome := by
  intro p hp
  cases h with
  | @insertedGlobal rule n reg t h =>
    rcases List.mem_append.1 hp with hp | hp
    · exact hl p hp
    · obtain rfl := List.mem_singleton.1 hp
      exact Registry.isSome_handle_of_strict hstrict h
  | releasedGlobal _ h => exact hl p (h.mem_iff.2 (List.mem_cons_of_mem _ hp))
  | inserted _ | insertFailed _ | released _ | insertGlobalFailed _ | operated | noted _ | idle =>
    exact hl p hp

/-- Unless the sink is cleared, it goes on to hold what the classes are permitted, and the global
rules in the ledger. -/
theorem Change.holds {k : Nat} {r t : Registry σ} {l l' : Ledger} {a : ClientAction}
    {allowed : ClassName → List StyleRule → Prop} (h : Change k r l a t l')
    (hadmits : ∀ e, a = .insert k e → ∀ f ∈ e.fragments, Registry.Admits allowed r.config f)
    (hclear : a ≠ .operate k .clear) (hr : r.Holds allowed (l.globals.flatMap fun p => p.2.held)) :
    t.Holds allowed (l'.globals.flatMap fun p => p.2.held) := by
  cases h with
  | @inserted e n t h | @insertFailed e err t h =>
    have ht := hr.insertElement (hadmits e rfl)
    rw [h] at ht
    exact ht
  | released h => exact hr.removeElement _
  | insertedGlobal h =>
    refine (hr.insertGlobal_ok h).perm ?_
    rw [List.flatMap_append, List.flatMap_singleton]
    exact List.perm_append_comm
  | insertGlobalFailed h => exact hr.insertGlobal_error h
  | releasedGlobal hreg h =>
    exact hr.releaseGlobal hreg (h.flatMap_right fun p : Nat × GlobalRegistration => p.2.held)
  | @operated op =>
    refine hr.operate ?_
    rintro rfl
    exact hclear rfl
  | noted notice => exact hr.note notice
  | idle => exact hr

/-- A strict registry and its ledger, where every class has the rules among the fragments `fs`. -/
structure Styled (fs : List Fragment) (r : Registry σ) (l : Ledger) : Prop where
  strict : r.config.mode = .strict
  tallies : r.Tallies (classNamesOfAll l.elements)
  fragments : ∀ f ∈ fragmentsOfAll l.elements, f ∈ fs
  taken : ∀ p ∈ l.globals, p.2.handle.isSome
  holds : r.Holds (fun n rules => rules = rulesOf fs n) (l.globals.flatMap fun p => p.2.held)

/-- One more action keeps the invariant, as long as an inserted element brings known fragments and
the sink is not cleared. -/
theorem Change.styled {k : Nat} {r t : Registry σ} {l l' : Ledger} {a : ClientAction}
    {fs : List Fragment} (hfs : Consistent fs) (h : Change k r l a t l')
    (ha : ∀ e, a = .insert k e → ∀ f ∈ e.fragments, f ∈ fs) (hclear : a ≠ .operate k .clear)
    (hr : Styled fs r l) : Styled fs t l' := by
  refine ⟨?_, h.tallies hr.tallies, fun f hf => ?_, h.taken hr.strict hr.taken, ?_⟩
  · rw [h.config]
    exact hr.strict
  · obtain ⟨e, he, hf⟩ := mem_fragmentsOfAll.1 hf
    rcases h.elements e he with he | he
    · exact hr.fragments f (mem_fragmentsOfAll.2 ⟨e, he, hf⟩)
    · exact ha e he f hf
  · refine h.holds (fun e he f hf taken _ hall => ?_) hclear hr.holds
    rw [hall hr.strict, hfs.rulesOf_eq (ha e he f hf)]

/-- Nothing has been registered yet, and nothing is held. -/
theorem Styled.start {fs : List Fragment} {r : Registry σ} (hstrict : r.config.mode = .strict)
    (hentries : r.entries = OrderedMap.empty) (hempty : held r.sink = []) : Styled fs r .empty := by
  refine ⟨hstrict, .of_empty hentries, ?_, ?_, .of_empty hentries hempty⟩
  · intro f hf
    cases hf
  · intro p hp
    cases hp

/-- What holds of a registry and its ledger after a history without a clearing of the sink. -/
theorem styled_run {c : Client σ} (hc : c.Fresh) {k : Nat} {r₀ : Registry σ}
    (hr₀ : c.registries[k]? = some r₀) (hstrict : r₀.config.mode = .strict)
    (hempty : held r₀.sink = []) {actions : List ClientAction} (hclear : .operate k .clear ∉ actions)
    (hrules : Consistent (offered k actions)) {r : Registry σ}
    (hr : (c.run actions).registries[k]? = some r) :
    Styled (offered k actions) r (c.ledger k actions) := by
  rw [← audit_actions c k] at hr
  refine (audit_change (P := Styled (offered k actions)) hc (fun r hr => ?_)
    (fun a ha r l t l' h hchange => ?_) (fun change hm => ?_) hr).1
  · cases hr₀.symm.trans hr
    exact .start hstrict (hc.entries_empty r₀ (List.mem_of_getElem? hr₀)) hempty
  · obtain ⟨a, ha, ⟨⟩⟩ := List.mem_map.1 ha
    refine hchange.styled hrules (fun e he f hf => ?_) (fun he => ?_) h
    · exact mem_offered (he ▸ ha) hf
    · exact hclear (he ▸ ha)
  · obtain ⟨a, -, h⟩ := List.mem_map.1 hm
    cases h

namespace Styled

variable {fs : List Fragment} {r : Registry σ} {l : Ledger}

/-- The classes that have an entry are those of the outstanding registrations. -/
theorem keys_perm (h : Styled fs r l) : r.entries.keys.Perm l.liveClasses := by
  refine perm_dedup_of_nodup r.entries.nodup_keys fun n => ?_
  rw [← h.tallies.contains_iff, Registry.contains, OrderedMap.contains_iff]

theorem consistent (h : Styled fs r l) (hfs : Consistent fs) :
    Consistent (fragmentsOfAll l.elements) := hfs.subset h.fragments

/-- A live class has the rules that it has in the elements registered. -/
theorem rulesOf_eq (h : Styled fs r l) (hfs : Consistent fs) {n : ClassName}
    (hn : n ∈ l.liveClasses) : rulesOf fs n = rulesOf (fragmentsOfAll l.elements) n := by
  obtain ⟨f, hf, rfl⟩ := Ledger.mem_liveClasses.1 hn
  rw [hfs.rulesOf_eq (h.fragments f hf), (h.consistent hfs).rulesOf_eq hf]

/-- Every outstanding global registration has its rule held. -/
theorem map_held (h : Styled fs r l) :
    (l.globals.flatMap fun p => p.2.held).map Prod.snd = l.globals.map fun p => p.2.rule := by
  rw [List.map_flatMap, List.map_eq_flatMap]
  refine List.flatMap_congr fun p hp => ?_
  obtain ⟨handle, hh⟩ := Option.isSome_iff_exists.1 (h.taken p hp)
  rw [GlobalRegistration.held, hh]
  rfl

/-- The rules held are those that the ledger asks for. -/
theorem perm_rules (hfs : Consistent fs) (h : Styled fs r l) :
    ((held r.sink).map Prod.snd).Perm l.rules := by
  obtain ⟨charge, hcharge, hallowed⟩ := h.holds
  have hclasses : ((r.entries.keys.flatMap charge).map Prod.snd).Perm
      (l.liveClasses.flatMap (rulesOf (fragmentsOfAll l.elements))) := by
    have hlocal := List.flatMap_congr fun n hn => h.rulesOf_eq hfs (n := n) hn
    rw [List.map_flatMap, List.flatMap_congr hallowed, ← hlocal]
    exact h.keys_perm.flatMap_right _
  have hheld := hcharge.held.map Prod.snd
  rw [List.map_append, h.map_held] at hheld
  exact hheld.trans (hclasses.append_right _)

end Styled

/-- Over a strict history without a clearing of the sink, in which a class always comes with the
same rules, the sink holds the rules of the classes in the trees of the outstanding registrations,
each class once, and the rules of the outstanding global registrations, and nothing else. -/
theorem held_perm_rules_outstanding {c : Client σ} (hc : c.Fresh) {k : Nat} {r₀ : Registry σ}
    (hr₀ : c.registries[k]? = some r₀) (hstrict : r₀.config.isStrict) (hempty : held r₀.sink = [])
    {actions : List ClientAction} (hclear : .operate k .clear ∉ actions)
    (hrules : Consistent (offered k actions)) {r : Registry σ}
    (hr : (c.run actions).registries[k]? = some r) :
    ((held r.sink).map Prod.snd).Perm (c.ledger k actions).rules ∧
      (∀ e ∈ (c.ledger k actions).elements, ∀ rule ∈ e.flattenRules,
        rule ∈ (held r.sink).map Prod.snd) ∧
      ((c.ledger k actions).registrations = [] → (c.ledger k actions).globals = [] →
        held r.sink = []) := by
  have hstyled := styled_run hc hr₀ (of_decide_eq_true hstrict) hempty hclear hrules hr
  have hperm := hstyled.perm_rules hrules
  refine ⟨hperm, fun e he rule hrule => hperm.mem_iff.2 ?_, fun hregs hglobals => ?_⟩
  · exact Ledger.mem_rules (hstyled.consistent hrules) he hrule
  · rw [Ledger.rules_eq_nil hregs hglobals] at hperm
    exact List.map_eq_nil_iff.1 hperm.eq_nil

/-- A sheet that is detached for a while. Two classes and a global rule share a text; an insertion
fails and is undone, and one that needs no new rule succeeds meanwhile. -/
theorem held_perm_rules_outstanding_detached :
    let x : StyleRule := ⟨"x \x7b\x7d"⟩
    let atRule : StyleRule := ⟨"@x \x7b\x7d"⟩
    let a : StyleElement := .node [] (some ⟨⟨"A", by decide⟩, [atRule, x]⟩)
    let b : StyleElement := .node [a, a] (some ⟨⟨"B", by decide⟩, [x]⟩)
    let bad : StyleElement := .node [b] (some ⟨⟨"C", by decide⟩, [x, x]⟩)
    let c : Client SinkChoice := .ofSinks ⟨.strict⟩ [.sheet .empty]
    let actions : List ClientAction :=
      [.insert 0 b, .insertGlobal 0 x, .operate 0 .detach, .insert 0 bad, .insert 0 a,
        .operate 0 .attach, .release 0 0]
    (c.ledger 0 actions).rules = [atRule, x, x] ∧ ∃ r, (c.run actions).registries[0]? = some r ∧
      ((held r.sink).map Prod.snd).Perm (c.ledger 0 actions).rules := by
  intro x atRule a b bad c actions
  have hc : c.Fresh := fresh_ofSinks ⟨.strict⟩ [SinkChoice.sheet .empty]
  have hrules : Consistent (offered 0 actions) := by
    unfold Consistent
    decide +kernel
  have hsome : (c.run actions).registries[0]?.isSome := by decide +kernel
  obtain ⟨r, hr⟩ := Option.isSome_iff_exists.1 hsome
  have hr₀ : c.registries[0]? = some (.new 0 ⟨.strict⟩ (.sheet .empty)) := rfl
  refine ⟨by decide +kernel, r, hr, ?_⟩
  exact (held_perm_rules_outstanding hc hr₀ rfl rfl (by decide) hrules hr).1

end Client

end ScopedCss
