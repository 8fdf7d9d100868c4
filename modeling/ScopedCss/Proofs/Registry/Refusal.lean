import ScopedCss.Proofs.Compiler.Acceptance
import ScopedCss.Proofs.Registry.Flattening
import ScopedCss.Proofs.Sink.Steady

/-!
# Which insertions fail

In strict mode an insertion fails if a rule is refused that is new to the registry, and reports the
first such rule. Which rules are new depends on the entries at the time when their fragment is met: a
class may have been live before, or have become live in the same walk. Still the rules that the walk
offers are those of the new fragments (`newFragments`), which are known before it begins, up to the
first one that is refused. A steady sink says the same of each of them as it would have said then.

A detached sheet refuses every rule, so over one only such elements can be inserted that have nothing
new to offer.
-/

namespace ScopedCss

namespace Registry

variable {σ : Type}

/-! ## Offering rules -/

section Rules

variable [Sink σ]

/-- The first of the rules that the sink refuses, with what it says against it. -/
def firstRefusal (s : σ) (rules : List StyleRule) : Option RegistryError :=
  rules.findSome? fun rule => (Sink.refusal s rule).map (RegistryError.mk rule)

theorem firstRefusal_congr {s t : σ} (h : Sink.refusal t = Sink.refusal s) (rules : List StyleRule) :
    firstRefusal t rules = firstRefusal s rules := by
  rw [firstRefusal, firstRefusal, h]

theorem firstRefusal_append (s : σ) (before after : List StyleRule) :
    firstRefusal s (before ++ after) = (firstRefusal s before).or (firstRefusal s after) :=
  List.findSome?_append

theorem firstRefusal_eq_none {s : σ} {rules : List StyleRule} :
    firstRefusal s rules = none ↔ ∀ rule ∈ rules, Sink.refusal s rule = none := by
  simp [firstRefusal]

/-- The first refusal among rules: the sink has nothing against the rules in front of it. -/
theorem firstRefusal_eq_some {s : σ} {rules : List StyleRule} {err : RegistryError} :
    firstRefusal s rules = some err ↔ ∃ before after, rules = before ++ err.rule :: after ∧
      (∀ rule ∈ before, Sink.refusal s rule = none) ∧
      Sink.refusal s err.rule = some err.cause := by
  rw [firstRefusal, List.findSome?_eq_some_iff]
  constructor
  · rintro ⟨before, rule, after, hrules, herr, hbefore⟩
    obtain ⟨cause, hcause, rfl⟩ := Option.map_eq_some_iff.1 herr
    exact ⟨before, after, hrules, fun rule hm => Option.map_eq_none_iff.1 (hbefore rule hm), hcause⟩
  · rintro ⟨before, after, hrules, hbefore, hcause⟩
    refine ⟨before, err.rule, after, hrules, ?_, fun rule hm => ?_⟩
    · rw [hcause]
      rfl
    · rw [hbefore rule hm]
      rfl

/-- Rules have been offered to the sink `s` in strict mode. Either it has taken them all and stands by
its refusals, or the first that it refuses is reported. -/
inductive Tried {α : Type} (s : σ) (rules : List StyleRule) :
    Except RegistryError α × Registry σ → Prop where
  /-- All of them are taken. -/
  | taken {a : α} {t : Registry σ} (h : firstRefusal s rules = none)
      (steady : Sink.refusal t.sink = Sink.refusal s) : Tried s rules (.ok a, t)
  /-- One of them is refused. -/
  | refused {err : RegistryError} {t : Registry σ} (h : firstRefusal s rules = some err) :
      Tried s rules (.error err, t)

theorem Tried.error_iff {α : Type} {s : σ} {rules : List StyleRule}
    {x : Except RegistryError α × Registry σ} (h : Tried s rules x) (err : RegistryError) :
    (∃ t, x = (.error err, t)) ↔ firstRefusal s rules = some err := by
  cases h with
  | taken h _ => simp [h]
  | refused h => simp [h]

theorem Tried.ok_iff {α : Type} {s : σ} {rules : List StyleRule}
    {x : Except RegistryError α × Registry σ} (h : Tried s rules x) :
    (∃ a t, x = (.ok a, t)) ↔ firstRefusal s rules = none := by
  cases h with
  | taken h _ => simp [h]
  | refused h => simp [h]

/-- Other rules have been taken before. -/
theorem Tried.after {α : Type} {s s' : σ} {before rules : List StyleRule}
    {x : Except RegistryError α × Registry σ} (h : Tried s' rules x)
    (hbefore : firstRefusal s before = none) (hs : Sink.refusal s' = Sink.refusal s) :
    Tried s (before ++ rules) x := by
  have hall : firstRefusal s (before ++ rules) = firstRefusal s' rules := by
    rw [firstRefusal_append, hbefore, Option.none_or, firstRefusal_congr hs]
  cases h with
  | taken h hsteady => exact .taken (hall.trans h) (hsteady.trans hs)
  | refused h => exact .refused (hall.trans h)

end Rules

/-! ## What is new -/

theorem newFragments_cons {r : Registry σ} {f : Fragment} (fs : List Fragment)
    (hf : r.contains f.className = false) : ∃ rest, r.newFragments (f :: fs) = f :: rest := by
  rw [newFragments, List.filter_cons, if_pos (by simp [hf])]
  exact ⟨_, rfl⟩

/-- Nothing is new exactly if every class is live already. -/
theorem newFragments_eq_nil {r : Registry σ} {fs : List Fragment} :
    r.newFragments fs = [] ↔ ∀ f ∈ fs, r.contains f.className = true := by
  have hfirst : ∀ fs : List Fragment, Fragment.firstOfEach fs = [] ↔ fs = [] := by
    intro fs
    cases fs with
    | nil => exact Iff.rfl
    | cons f fs => exact iff_of_false nofun nofun
  rw [newFragments, hfirst, List.filter_eq_nil_iff]
  simp

/-- A class that has been acquired is live, and the others are as they were. -/
theorem contains_acquire [Sink σ] {r t : Registry σ} {f : Fragment}
    (h : r.acquire f = (.ok (), t)) (n : ClassName) :
    t.contains n = (r.contains n || decide (n = f.className)) := by
  obtain ⟨handles, ht⟩ := acquire_ok_entries h
  rw [contains, contains, OrderedMap.contains, OrderedMap.contains, ht, OrderedMap.get?_set]
  by_cases hn : n = f.className
  · simp [hn]
  · simp [hn]

/-! ## Acquiring classes -/

variable [Sink σ] [SteadySink σ]

/-- A steady sink that is offered rules in strict mode stops at the first one that it would have
refused before the first was offered. -/
theorem tried_addRules {r : Registry σ} (hm : r.config.mode = .strict) (taken : List Handle)
    (rules : List StyleRule) : Tried r.sink rules (r.addRules taken rules) := by
  induction rules generalizing r taken with
  | nil => exact .taken rfl rfl
  | cons rule rules ih =>
    rw [addRules]
    split
    · next h s hadd =>
      have htaken : firstRefusal r.sink [rule] = none := by
        rw [firstRefusal_eq_none]
        intro rule' hrule
        rw [List.mem_singleton.1 hrule]
        exact Sink.refusal_eq_none.2 ⟨h, s, hadd⟩
      have hrest : Tried s rules (Registry.addRules { r with sink := s } (taken ++ [h]) rules) :=
        ih (r := { r with sink := s }) hm (taken ++ [h])
      exact hrest.after htaken (SteadySink.refusal_add hadd)
    · next e s hadd =>
      simp only [hm]
      refine .refused (firstRefusal_eq_some.2 ⟨[], rules, rfl, fun rule' hrule => ?_, ?_⟩)
      · cases hrule
      · exact Sink.refusal_of_add_error hadd

/-- A fragment whose class is not live is decided by its rules. -/
theorem tried_acquire {r : Registry σ} (hm : r.config.mode = .strict) {f : Fragment}
    (hf : r.contains f.className = false) : Tried r.sink f.rules (r.acquire f) := by
  have hnone : r.entries.get? f.className = none := by
    rw [contains, OrderedMap.contains] at hf
    exact Option.not_isSome_iff_eq_none.1 (by rw [hf]; decide)
  have htried := tried_addRules hm [] f.rules
  rw [acquire, hnone]
  simp only
  rcases hadd : r.addRules [] f.rules with ⟨err | handles, s⟩
  · rw [hadd] at htried
    cases htried with
    | refused h => exact .refused h
  · rw [hadd] at htried
    cases htried with
    | taken h hsteady => exact .taken h hsteady

/-- Acquiring several classes offers the rules of the new fragments. -/
theorem tried_acquireAll {r : Registry σ} (hm : r.config.mode = .strict) (fs : List Fragment) :
    Tried r.sink ((r.newFragments fs).flatMap Fragment.rules) (r.acquireAll fs) := by
  induction fs generalizing r with
  | nil => exact .taken rfl rfl
  | cons f fs ih =>
    rw [acquireAll]
    have hconfig := (continues_acquire r f).config
    cases hf : r.contains f.className with
    | true =>
      -- The class is live: nothing is offered, and its entry stays.
      obtain ⟨e, he⟩ : ∃ e, r.entries.get? f.className = some e := Option.isSome_iff_exists.1 hf
      have hacquire : r.acquire f = (.ok (), { r with
          entries := r.entries.set f.className { e with count := e.count + 1 } }) := by
        rw [acquire, he]
      have hcontains := contains_acquire hacquire
      rw [hacquire] at hconfig
      rw [hacquire, newFragments_cons_of_contains fs hf fun n => ?_]
      · exact ih (hconfig.symm ▸ hm)
      · rw [hcontains]
        by_cases hn : n = f.className
        · rw [hn, hf, Bool.true_or]
        · simp [hn]
    | false =>
      have htried := tried_acquire hm hf
      rcases hacquire : r.acquire f with ⟨err | _, s⟩
      · rw [hacquire] at htried
        cases htried with
        | refused h =>
          obtain ⟨rest, hnew⟩ := newFragments_cons fs hf
          rw [hnew, List.flatMap_cons]
          refine .refused ?_
          rw [firstRefusal_append, h]
          rfl
      · rw [hacquire] at htried hconfig
        cases htried with
        | taken h hsteady =>
          rw [newFragments_cons_of_not_contains fs hf (contains_acquire hacquire),
            List.flatMap_cons]
          exact (ih (hconfig.symm ▸ hm)).after h hsteady

/-! ## Inserting elements -/

/-- An insertion in strict mode is decided by the rules of the new fragments, in the order in which
the walk meets them. -/
theorem tried_insert {r : Registry σ} (hm : r.config.mode = .strict) (e : StyleElement) :
    Tried r.sink ((r.newFragments e.fragments).flatMap Fragment.rules) (r.insert e) := by
  have htried := tried_acquireAll hm e.fragments
  rcases hinsert : r.insert e with ⟨err | reg, t⟩
  · obtain ⟨u, hu⟩ := (abandons_of_insertElement (insert_error hinsert)).acquireAll
    rw [hu] at htried
    cases htried with
    | refused h => exact .refused h
  · rw [acquireAll_of_insertElement (insert_ok hinsert).2] at htried
    cases htried with
    | taken h hsteady => exact .taken h hsteady

/-! ## Detached sheets -/

/-- A detached sheet has something against the first rule, whatever it is. -/
theorem firstRefusal_detached {s : SheetSink} (hs : s.attached = false) {rules : List StyleRule} :
    firstRefusal s rules = none ↔ rules = [] := by
  have hrefusal : ∀ rule, Sink.refusal s rule = some (.detached rule) := by
    intro rule
    rw [SheetSink.refusal_eq, hs]
    rfl
  rw [firstRefusal_eq_none]
  constructor
  · intro h
    refine List.eq_nil_iff_forall_not_mem.2 fun rule hrule => ?_
    have hnone := h rule hrule
    rw [hrefusal] at hnone
    cases hnone
  · rintro rfl rule hrule
    cases hrule

theorem insert_ok_iff_detached {r : Registry SheetSink} (hm : r.config.mode = .strict)
    (hr : r.sink.attached = false) (e : StyleElement) :
    (∃ reg t, r.insert e = (.ok reg, t)) ↔ ∀ f ∈ r.newFragments e.fragments, f.rules = [] := by
  rw [(tried_insert hm e).ok_iff, firstRefusal_detached hr, List.flatMap_eq_nil_iff]

end Registry

/-- Everything that is compiled has a rule. -/
theorem StyleElement.Built.rules_ne_nil {P : StyleObject → Prop} {e : StyleElement}
    (he : Built P e) : ∀ f ∈ e.fragments, f.rules ≠ [] := by
  induction he with
  | build h calls inputs objects _ ih =>
    obtain ⟨c, hbuild, -⟩ := (Compiler.faithful_after h calls).build inputs
    intro f hf
    rw [hbuild, fragments] at hf
    rcases List.mem_append.1 hf with hf | hf
    · obtain ⟨e, he, hf⟩ := mem_fragmentsOfAll.1 hf
      exact ih e he f hf
    · have hf := Option.mem_toList.1 hf
      intro hnil
      rw [rules_fragmentOf hf, List.map_eq_nil_iff] at hnil
      rw [hnil] at hf
      cases hf

namespace Registry

/-- A new fragment without rules is no compiled one, so nothing of a compiled element is new. -/
theorem forall_rules_eq_nil_iff {σ : Type} {r : Registry σ} {P : StyleObject → Prop}
    {e : StyleElement} (he : e.Built P) :
    (∀ f ∈ r.newFragments e.fragments, f.rules = []) ↔
      ∀ n ∈ e.classNames, r.contains n = true := by
  have hnew : (∀ f ∈ r.newFragments e.fragments, f.rules = []) ↔
      r.newFragments e.fragments = [] := by
    constructor
    · intro h
      refine List.eq_nil_iff_forall_not_mem.2 fun f hf => ?_
      have hmem : f ∈ e.fragments :=
        List.mem_of_mem_filter ((Fragment.firstOfEach_sublist _).subset hf)
      exact he.rules_ne_nil f hmem (h f hf)
    · intro h f hf
      rw [h] at hf
      cases hf
  rw [hnew, newFragments_eq_nil, StyleElement.classNames, List.forall_mem_map]

/-- In strict mode, whatever is live and whatever the sink refuses, an insertion fails exactly if a
rule of a new fragment is refused, and it reports the first such rule with what the sink says against
it. So over a detached sheet an insertion succeeds exactly if no new fragment has rules, and that of
a compiled element exactly if all its classes are live. -/
theorem strict_insert_reports_first_refusal :
    (∀ {σ : Type} [Sink σ] [SteadySink σ] (r : Registry σ) (e : StyleElement),
      r.config.mode = .strict →
      let offered := (r.newFragments e.fragments).flatMap Fragment.rules
      ((∃ err t, r.insert e = (.error err, t)) ↔
        ∃ rule ∈ offered, Sink.refusal r.sink rule ≠ none) ∧
      ∀ err t, r.insert e = (.error err, t) →
        ∃ before after, offered = before ++ err.rule :: after ∧
          (∀ rule ∈ before, Sink.refusal r.sink rule = none) ∧
          Sink.refusal r.sink err.rule = some err.cause) ∧
    ∀ (r : Registry SheetSink) (e : StyleElement), r.config.mode = .strict →
      r.sink.attached = false →
      ((∃ reg t, r.insert e = (.ok reg, t)) ↔
        ∀ f ∈ r.newFragments e.fragments, f.rules = []) ∧
      ∀ P, e.Built P → ((∃ reg t, r.insert e = (.ok reg, t)) ↔
        ∀ n ∈ e.classNames, r.contains n = true) := by
  refine ⟨fun {σ} _ _ r e hm => ⟨?_, fun err t h => ?_⟩, fun r e hm hr => ⟨?_, fun P he => ?_⟩⟩
  · constructor
    · rintro ⟨err, hfailed⟩
      have hfirst := ((tried_insert hm e).error_iff err).1 hfailed
      obtain ⟨before, after, hoffered, -, hcause⟩ := firstRefusal_eq_some.1 hfirst
      refine ⟨err.rule, ?_, by simp [hcause]⟩
      rw [hoffered]
      exact List.mem_append_right _ List.mem_cons_self
    · rintro ⟨rule, hrule, hrefused⟩
      have hsome : firstRefusal r.sink ((r.newFragments e.fragments).flatMap Fragment.rules) ≠
          none := fun hnone => hrefused (firstRefusal_eq_none.1 hnone rule hrule)
      obtain ⟨err, herr⟩ := Option.ne_none_iff_exists'.1 hsome
      exact ⟨err, ((tried_insert hm e).error_iff err).2 herr⟩
  · exact firstRefusal_eq_some.1 (((tried_insert hm e).error_iff err).1 ⟨t, h⟩)
  · exact insert_ok_iff_detached hm hr e
  · rw [insert_ok_iff_detached hm hr e]
    exact forall_rules_eq_nil_iff he

/-- A tree with a rule that is unwanted in a class that is live, and with two in one that is new; and a
compiled element that is live when the sheet is detached. -/
theorem strict_insert_reports_first_refusal_live :
    let live : StyleElement := .node [] (some ⟨⟨"L", by decide⟩, [⟨"l"⟩]⟩)
    let stale : StyleElement := .node [] (some ⟨⟨"L", by decide⟩, [⟨"b"⟩]⟩)
    let e : StyleElement := .node [stale, live] (some ⟨⟨"E", by decide⟩, [⟨"e"⟩, ⟨"eb"⟩, ⟨"b"⟩]⟩)
    let c : Client FastidiousSink := .ofSinks ⟨.strict⟩ [.empty "b"]
    let button := (Compiler.new.build [.raw (.ofList [("color", .value (.text "red"))])]).1
    let page : Client SheetSink := .ofSinks ⟨.strict⟩ [.empty]
    (∃ r t, (c.run [.insert 0 live]).registries[0]? = some r ∧
      r.insert e = (.error ⟨⟨"eb"⟩, .rejected ⟨"eb"⟩ .unwanted⟩, t) ∧
      (∃ rule ∈ (r.newFragments e.fragments).flatMap Fragment.rules,
        Sink.refusal r.sink rule ≠ none) ∧
      ∃ before after, (r.newFragments e.fragments).flatMap Fragment.rules =
          before ++ ⟨"eb"⟩ :: after ∧
        (∀ rule ∈ before, Sink.refusal r.sink rule = none) ∧
        Sink.refusal r.sink ⟨"eb"⟩ = some (.rejected ⟨"eb"⟩ .unwanted)) ∧
    ∃ r, (page.run [.insert 0 button, .operate 0 .detach]).registries[0]? = some r ∧
      r.sink.attached = false ∧ ∃ reg t, r.insert button = (.ok reg, t) := by
  intro live stale e c button page
  constructor
  · obtain ⟨r, hr, hm, hfailed⟩ : ∃ r, (c.run [.insert 0 live]).registries[0]? = some r ∧
        r.config.mode = .strict ∧
        (r.insert e).1 = .error ⟨⟨"eb"⟩, .rejected ⟨"eb"⟩ .unwanted⟩ := ⟨_, rfl, rfl, rfl⟩
    have h : r.insert e = (.error ⟨⟨"eb"⟩, .rejected ⟨"eb"⟩ .unwanted⟩, (r.insert e).2) := by
      rw [← hfailed]
    obtain ⟨hiff, hfirst⟩ := strict_insert_reports_first_refusal.1 r e hm
    exact ⟨r, _, hr, h, hiff.1 ⟨_, _, h⟩, hfirst _ _ h⟩
  · have hlive : (page.run [.insert 0 button, .operate 0 .detach]).registries[0]?.map (fun r =>
        (r.config.mode, r.sink.attached, button.classNames.all r.contains)) =
          some (.strict, false, true) := by
      decide +kernel
    obtain ⟨r, hr, hfacts⟩ := Option.map_eq_some_iff.1 hlive
    obtain ⟨hm, hfacts⟩ := Prod.mk.inj hfacts
    obtain ⟨hdetached, hall⟩ := Prod.mk.inj hfacts
    have hbuilt : button.Built fun _ => True := by
      refine .build .standard [] _ (fun _ _ => trivial) fun e' he' => ?_
      cases he'
    refine ⟨r, hr, hdetached, ?_⟩
    have hiff := (strict_insert_reports_first_refusal.2 r button hm hdetached).2 _ hbuilt
    exact hiff.2 (List.all_eq_true.1 hall)

end Registry

end ScopedCss
