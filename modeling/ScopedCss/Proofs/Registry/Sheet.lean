import ScopedCss.Proofs.Registry.Flattening
import ScopedCss.Proofs.Sink.Regions

/-!
# What a registry brings to a sheet

A registry offers rules to a sheet in a certain order. If the sheet is attached, what comes of it does
not depend on anything else: the sheet shows the rules that have the right shape, plain rules first,
and the registry fails if it is strict and one of the rules has not (`Offering`). What is offered is
all that has to be found out about an operation, and operations one after the other offer their rules
one after the other.
-/

namespace ScopedCss

/-! ## What is shown -/

/-- The rules that a sheet takes while it is attached. -/
def sheetRules (rules : List StyleRule) : List StyleRule :=
  rules.filter fun rule => ruleFault rule = none

theorem sheetRules_append (rules rules' : List StyleRule) :
    sheetRules (rules ++ rules') = sheetRules rules ++ sheetRules rules' := List.filter_append _ _

theorem sheetRules_singleton (rule : StyleRule) :
    sheetRules [rule] = if ruleFault rule = none then [rule] else [] := by
  by_cases hfault : ruleFault rule = none
  · simp [sheetRules, hfault]
  · simp [sheetRules, hfault]

/-- The sheet is attached and has taken the rules, in this order. -/
structure SheetSink.Shows (s : SheetSink) (rules : List StyleRule) : Prop where
  attached : s.attached = true
  base : s.base.rules = rules.filter fun rule => !rule.isAtRule
  atRules : s.atRules.rules = rules.filter fun rule => rule.isAtRule

/-- A registry with these settings does not fail because of one of the rules. -/
def RegistryConfig.Admits (config : RegistryConfig) (rules : List StyleRule) : Prop :=
  config.mode = .strict → ∀ rule ∈ rules, ruleFault rule = none

/-- Rules are admitted together exactly if they are admitted in two parts. -/
theorem RegistryConfig.admits_append {config : RegistryConfig} {rules rules' : List StyleRule} :
    config.Admits (rules ++ rules') ↔ config.Admits rules ∧ config.Admits rules' := by
  constructor
  · intro h
    exact ⟨fun hm rule hrule => h hm rule (List.mem_append_left _ hrule),
      fun hm rule hrule => h hm rule (List.mem_append_right _ hrule)⟩
  · rintro ⟨h, h'⟩ hm rule hrule
    exact (List.mem_append.1 hrule).elim (h hm rule) (h' hm rule)

/-- A single rule is admitted if it has the right shape, or if the mode is relaxed. -/
theorem RegistryConfig.admits_singleton {config : RegistryConfig} {rule : StyleRule} :
    config.Admits [rule] ↔ config.mode = .strict → ruleFault rule = none := by
  constructor
  · intro h hm
    exact h hm rule (List.mem_singleton_self rule)
  · intro h hm rule' hrule'
    rw [List.mem_singleton.1 hrule']
    exact h hm

namespace SheetSink

variable {s t : SheetSink} {rules : List StyleRule} {rule : StyleRule}

theorem shows_empty : empty.Shows [] := ⟨rfl, rfl, rfl⟩

/-- A sheet that takes a rule shows it behind the others of its kind. -/
theorem Shows.add {h : Handle} (hs : s.Shows rules) (hadd : s.add rule = (.ok h, t)) :
    t.Shows (rules ++ [rule]) := by
  obtain ⟨rfl, rfl⟩ := add_ok_eq hadd
  have hone : ∀ p : StyleRule → Bool, (rules ++ [rule]).filter p =
      if p rule then rules.filter p ++ [rule] else rules.filter p := by
    intro p
    rw [List.filter_append]
    cases hp : p rule with
    | true => simp [hp]
    | false => simp [hp]
  cases hat : rule.isAtRule with
  | true =>
    refine ⟨hs.attached, ?_, ?_⟩
    · rw [hone, hat]
      exact hs.base
    · rw [hone, hat, if_pos rfl, if_pos rfl, ← hs.atRules]
      exact List.map_append
  | false =>
    refine ⟨hs.attached, ?_, ?_⟩
    · rw [hone, hat, if_neg (by decide), if_pos (by decide), ← hs.base]
      exact List.map_append
    · rw [hone, hat]
      exact hs.atRules

/-- While a sheet is attached, nothing but the shape of a rule counts. -/
theorem Shows.add_cases (hs : s.Shows rules) (rule : StyleRule) :
    (ruleFault rule = none ∧ ∃ h t, s.add rule = (.ok h, t) ∧ t.Shows (rules ++ [rule])) ∨
    (ruleFault rule ≠ none ∧ ∃ e, s.add rule = (.error e, s)) := by
  rcases SheetSink.add_cases s rule with ⟨-, hfault, h, t, hadd⟩ | ⟨hrefused, hadd⟩
  · exact .inl ⟨hfault, h, t, hadd, hs.add hadd⟩
  · refine .inr ⟨?_, hadd⟩
    rcases hrefused with hdetached | hfault
    · rw [hs.attached] at hdetached
      cases hdetached
    · exact hfault

theorem Shows.rules_eq (hs : s.Shows rules) : s.rules =
    rules.filter (fun rule => !rule.isAtRule) ++ rules.filter fun rule => rule.isAtRule := by
  rw [SheetSink.rules, hs.base, hs.atRules]

theorem Shows.size_eq (hs : s.Shows rules) : s.size = rules.length := by
  have hlength : s.size = s.rules.length := by
    simp [size, SheetSink.rules, HeldRules.rules]
  have hperm := List.filter_append_perm (fun rule : StyleRule => rule.isAtRule) rules
  rw [hlength, hs.rules_eq, ← hperm.length_eq, List.length_append, List.length_append, Nat.add_comm]

end SheetSink

namespace Registry

/-! ## Offering rules -/

/-- The settings of a registry over a sheet, the classes that are live, and what the sheet shows. -/
structure Stands (r : Registry SheetSink) (config : RegistryConfig) (live : List ClassName)
    (shown : List StyleRule) : Prop where
  config_eq : r.config = config
  keys_eq : r.entries.keys = live
  shows : r.sink.Shows shown

/-- The rules `offered` were offered to a sheet that showed `shown`, when the classes `live` were live.
If this ended well, the settings admit the rules, the sheet shows those of the right shape as well, and
the classes `names` are live as well. If not, the settings do not admit the rules. -/
inductive Offering {α ε : Type} (config : RegistryConfig) (live : List ClassName)
    (shown : List StyleRule) (names : List ClassName) (offered : List StyleRule) :
    Except ε α × Registry SheetSink → Prop where
  | taken {a : α} {t : Registry SheetSink} (admits : config.Admits offered)
      (stands : t.Stands config (live ++ names) (shown ++ sheetRules offered)) :
      Offering config live shown names offered (.ok a, t)
  | refused {e : ε} {t : Registry SheetSink} (refuses : ¬ config.Admits offered) :
      Offering config live shown names offered (.error e, t)

variable {r t : Registry SheetSink} {config : RegistryConfig} {live names : List ClassName}
  {shown : List StyleRule}

theorem Offering.none {α ε : Type} (hr : r.Stands config live shown) (a : α) :
    Offering config live shown [] [] ((.ok a : Except ε α), r) := by
  refine .taken (fun _ rule hrule => by cases hrule) ?_
  rwa [sheetRules, List.filter_nil, List.append_nil, List.append_nil]

/-- What is done to the answer alone does not matter. -/
theorem Offering.map {α β ε : Type} {offered : List StyleRule} {p : Except ε α × Registry SheetSink}
    (h : Offering config live shown names offered p) (f : α → β) :
    Offering config live shown names offered (p.1.map f, p.2) := by
  cases h with
  | taken admits stands => exact .taken admits stands
  | refused refuses => exact .refused refuses

/-- Some rules are offered and admitted, and then others are offered. -/
theorem Offering.after {α ε : Type} (names : List ClassName) {names' : List ClassName}
    (rules : List StyleRule) {rules' : List StyleRule} {p : Except ε α × Registry SheetSink}
    (hadmits : config.Admits rules) (h : Offering config (live ++ names) (shown ++ sheetRules rules) names' rules' p) :
    Offering config live shown (names ++ names') (rules ++ rules') p := by
  cases h with
  | taken admits stands =>
    refine .taken (RegistryConfig.admits_append.2 ⟨hadmits, admits⟩) ?_
    rwa [sheetRules_append, ← List.append_assoc, ← List.append_assoc]
  | refused refuses => exact .refused fun h => refuses (RegistryConfig.admits_append.1 h).2

/-- Nothing comes after rules that are not admitted. -/
theorem Offering.ended {α ε : Type} (rules : List StyleRule) (hrefuses : ¬ config.Admits rules)
    (names : List ClassName) (rules' : List StyleRule) (e : ε) (t : Registry SheetSink) :
    Offering config live shown names (rules ++ rules') ((.error e : Except ε α), t) :=
  .refused fun h => hrefuses (RegistryConfig.admits_append.1 h).1

/-- Bringing rules to an attached sheet offers it these rules, also with some taken before. -/
theorem offering_addRules (hr : r.Stands config live shown) (taken : List Handle)
    (rules : List StyleRule) :
    Offering config live shown [] rules (r.addRules taken rules) := by
  induction rules generalizing r shown taken with
  | nil => exact .none hr taken
  | cons rule rules ih =>
    rcases hr.shows.add_cases rule with ⟨hfault, h, s, hadd, hs⟩ | ⟨hfault, e, hadd⟩
    · have hstep : r.addRules taken (rule :: rules) =
          Registry.addRules { r with sink := s } (taken ++ [h]) rules := by
        rw [addRules, show Sink.add r.sink rule = _ from hadd]
      rw [hstep]
      refine .after [] [rule] (RegistryConfig.admits_singleton.2 fun _ => hfault) ?_
      rw [sheetRules_singleton, if_pos hfault, List.append_nil]
      exact ih (r := { r with sink := s }) ⟨hr.config_eq, hr.keys_eq, hs⟩ (taken ++ [h])
    · cases hm : r.config.mode with
      | strict =>
        rw [addRules, show Sink.add r.sink rule = _ from hadd]
        simp only [hm]
        refine .ended [rule] (fun hadmits => ?_) [] rules _ _
        exact hfault (RegistryConfig.admits_singleton.1 hadmits (hr.config_eq ▸ hm))
      | relaxed =>
        have hstep : r.addRules taken (rule :: rules) =
            (r.note (.ruleSkipped rule e)).addRules taken rules := by
          rw [addRules, show Sink.add r.sink rule = _ from hadd]
          simp only [hm]
        rw [hstep]
        refine .after [] [rule] (RegistryConfig.admits_singleton.2 fun hstrict => ?_) ?_
        · rw [← hr.config_eq, hm] at hstrict
          cases hstrict
        · rw [sheetRules_singleton, if_neg hfault, List.append_nil, List.append_nil]
          exact ih (r := r.note (.ruleSkipped rule e)) ⟨hr.config_eq, hr.keys_eq, hr.shows⟩ taken

/-- A rule that belongs to no class is offered alone, and no class becomes live with it. -/
theorem offering_insertGlobal (hr : r.Stands config live shown) (rule : StyleRule) :
    Offering config live shown [] [rule] (r.insertGlobal rule) := by
  unfold insertGlobal
  rcases hr.shows.add_cases rule with ⟨hfault, h, s, hadd, hs⟩ | ⟨hfault, e, hadd⟩
  · rw [show Sink.addGlobal r.sink rule = _ from hadd]
    refine .taken (RegistryConfig.admits_singleton.2 fun _ => hfault) ?_
    rw [sheetRules_singleton, if_pos hfault, List.append_nil]
    exact ⟨hr.config_eq, hr.keys_eq, hs⟩
  · rw [show Sink.addGlobal r.sink rule = _ from hadd]
    cases hm : r.config.mode with
    | strict =>
      refine .refused fun hadmits => ?_
      exact hfault (RegistryConfig.admits_singleton.1 hadmits (hr.config_eq ▸ hm))
    | relaxed =>
      refine .taken (RegistryConfig.admits_singleton.2 fun hstrict => ?_) ?_
      · rw [← hr.config_eq, hm] at hstrict
        cases hstrict
      · rw [sheetRules_singleton, if_neg hfault, List.append_nil, List.append_nil]
        exact ⟨hr.config_eq, hr.keys_eq, hr.shows⟩

/-! ## Classes -/

/-- The sheet hears nothing of a class that is live. -/
theorem acquire_live (hr : r.Stands config live shown) {f : Fragment} (hf : f.className ∈ live) :
    ∃ t, r.acquire f = (.ok (), t) ∧ t.Stands config live shown := by
  have hmem : f.className ∈ r.entries.keys := hr.keys_eq ▸ hf
  cases hget : r.entries.get? f.className with
  | none => exact absurd hmem (OrderedMap.get?_eq_none_iff.1 hget)
  | some e =>
    refine ⟨{ r with entries := r.entries.set f.className { e with count := e.count + 1 } }, ?_,
      hr.config_eq, ?_, hr.shows⟩
    · rw [acquire, hget]
    · exact (OrderedMap.keys_set_of_mem hmem _).trans hr.keys_eq

/-- A fragment whose class is not live offers its rules, and the class becomes live. -/
theorem offering_acquire (hr : r.Stands config live shown) {f : Fragment} (hf : f.className ∉ live) :
    Offering config live shown [f.className] f.rules (r.acquire f) := by
  have hnew : f.className ∉ r.entries.keys := hr.keys_eq ▸ hf
  simp only [acquire, OrderedMap.get?_eq_none_iff.2 hnew]
  have hoffer := offering_addRules hr [] f.rules
  generalize r.addRules [] f.rules = p at hoffer
  cases hoffer with
  | @taken handles t admits stands =>
    have hkeys : t.entries.keys = live := stands.keys_eq.trans (List.append_nil live)
    refine .taken admits ⟨stands.config_eq, ?_, stands.shows⟩
    rw [← hkeys]
    exact OrderedMap.keys_set_of_notMem (hkeys ▸ hf) _
  | refused refuses => exact .refused refuses

theorem Stands.contains_eq (hr : r.Stands config live shown) (n : ClassName) :
    r.contains n = decide (n ∈ live) := by
  rw [← hr.keys_eq, contains, Bool.eq_iff_iff, OrderedMap.contains_iff, decide_eq_true_eq]

/-! ## Elements that are composed of nothing -/

theorem insert_of_acquire_ok {f : Fragment} (h : r.acquire f = (.ok (), t)) :
    r.insert (.node [] (some f)) = (.ok ⟨t.id, .node [] (some f)⟩, t) := by
  simp only [Registry.insert, insertElement, insertAll, h]

theorem insert_of_acquire_error {f : Fragment} {err : RegistryError}
    (h : r.acquire f = (.error err, t)) : r.insert (.node [] (some f)) = (.error err, t) := by
  simp only [Registry.insert, insertElement, insertAll, h]
  rfl

end Registry

end ScopedCss
