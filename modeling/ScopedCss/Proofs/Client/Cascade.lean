import ScopedCss.Proofs.Client.Calls
import ScopedCss.Proofs.Registry.Succession

/-!
# The cascade over histories

The rules of an element are inserted after those of the elements it is composed of, and so win over
them. But a class that is live already stays where it is, however it was composed when it came. So
the order of two classes is decided by the insertion that made one of them live last: that one comes
after the classes that were live before, and after those that the walk of the inserted tree met
before it (`LiveSince`, `Precedes`).

If a class never comes without another one below it, it comes after it.
-/

namespace ScopedCss

/-! ## Trees -/

namespace StyleElement

/-- The element is a node of the tree of another one. -/
inductive Within (p : StyleElement) : StyleElement → Prop where
  | root : Within p p
  | inside {e : StyleElement} {cs : List StyleElement} {owned : Option Fragment} (he : e ∈ cs)
      (h : Within p e) : Within p (.node cs owned)

/-- The element contributes the class itself. -/
def Owns (p : StyleElement) (n : ClassName) : Prop := p.owned.map Fragment.className = some n

/-- Something that the element is composed of, directly or indirectly, owns the class. -/
def ComposedOf (p : StyleElement) (d : ClassName) : Prop :=
  ∃ e ∈ p.composed, ∃ q, Within q e ∧ q.Owns d

/-- Somewhere in the tree, a node that owns `d` stands below one that owns `n`. -/
def Below (e : StyleElement) (d n : ClassName) : Prop :=
  ∃ p, Within p e ∧ p.Owns n ∧ p.ComposedOf d

/-- Wherever a node owns `n`, one that owns `d` stands below it. -/
def EachAbove (e : StyleElement) (d n : ClassName) : Prop :=
  ∀ p, Within p e → p.Owns n → p.ComposedOf d

variable {d n : ClassName}

theorem owns_node {cs : List StyleElement} {owned : Option Fragment} :
    (node cs owned).Owns n ↔ n ∈ owned.toList.map Fragment.className := by
  cases owned with
  | none => simp [Owns, StyleElement.owned]
  | some f => simp [Owns, StyleElement.owned, eq_comm]

/-- The names of a tree are those that its nodes own. -/
theorem mem_classNames_iff :
    (∀ e : StyleElement, n ∈ e.classNames ↔ ∃ p, Within p e ∧ p.Owns n) ∧
    ∀ es : List StyleElement, n ∈ classNamesOfAll es ↔ ∃ e ∈ es, ∃ p, Within p e ∧ p.Owns n := by
  refine StyleElement.induct (fun cs owned ih => ?_) ?_ fun e es ihe ihes => ?_
  · have hroot : (node cs owned).Owns n ↔ _ := owns_node
    rw [classNames_node, List.mem_append, ih, ← hroot]
    constructor
    · rintro (⟨e, he, p, hp, howns⟩ | howns)
      · exact ⟨p, .inside he hp, howns⟩
      · exact ⟨_, .root, howns⟩
    · rintro ⟨p, hp, howns⟩
      cases hp with
      | root => exact .inr howns
      | inside he hp => exact .inl ⟨_, he, p, hp, howns⟩
  · simp [classNamesOfAll]
  · rw [classNamesOfAll_cons, List.mem_append, ihe, ihes]
    simp

theorem composedOf_iff {p : StyleElement} :
    p.ComposedOf d ↔ d ∈ classNamesOfAll p.composed := (mem_classNames_iff.2 p.composed).symm

theorem Within.trans {p q e : StyleElement} (h : Within p q) (h' : Within q e) : Within p e := by
  induction h' with
  | root => exact h
  | inside he _ ih => exact .inside he ih

theorem ComposedOf.exists_within {p : StyleElement} (h : p.ComposedOf d) :
    ∃ q, Within q p ∧ q.Owns d := by
  obtain ⟨e, he, q, hq, hd⟩ := h
  obtain ⟨cs, owned⟩ := p
  exact ⟨q, .inside he hq, hd⟩

/-- The names on a path downwards are names of the tree. -/
theorem Below.mem {e : StyleElement} (h : e.Below d n) : d ∈ e.classNames ∧ n ∈ e.classNames := by
  obtain ⟨p, hp, hn, hbelow⟩ := h
  obtain ⟨q, hq, hd⟩ := hbelow.exists_within
  constructor
  · exact (mem_classNames_iff.1 e).2 ⟨q, hq.trans hp, hd⟩
  · exact (mem_classNames_iff.1 e).2 ⟨p, hp, hn⟩

/-- A pair of classes, one below the other, is found further down or at the root. -/
theorem below_node {cs : List StyleElement} {owned : Option Fragment} :
    (node cs owned).Below d n ↔
      (∃ e ∈ cs, e.Below d n) ∨ (node cs owned).Owns n ∧ d ∈ classNamesOfAll cs := by
  constructor
  · rintro ⟨p, hp, hn, hd⟩
    cases hp with
    | root => exact .inr ⟨hn, composedOf_iff.1 hd⟩
    | inside he hp => exact .inl ⟨_, he, p, hp, hn, hd⟩
  · rintro (⟨e, he, p, hp, hn, hd⟩ | ⟨hn, hd⟩)
    · exact ⟨p, .inside he hp, hn, hd⟩
    · exact ⟨_, .root, hn, composedOf_iff.2 hd⟩

/-- A node composes every class of its children wherever they do, and owns at most one class itself.
-/
theorem eachAbove_node {cs : List StyleElement} {owned : Option Fragment} :
    (node cs owned).EachAbove d n ↔
      (∀ e ∈ cs, e.EachAbove d n) ∧ ((node cs owned).Owns n → d ∈ classNamesOfAll cs) := by
  constructor
  · intro h
    exact ⟨fun e he p hp => h p (.inside he hp), fun hn => composedOf_iff.1 (h _ .root hn)⟩
  · rintro ⟨hcs, hroot⟩ p hp hn
    cases hp with
    | root => exact composedOf_iff.2 (hroot hn)
    | inside he hp => exact hcs _ he p hp hn

theorem EachAbove.mem {e : StyleElement} (h : e.EachAbove d n) (hn : n ∈ e.classNames) :
    d ∈ e.classNames := by
  obtain ⟨p, hp, howns⟩ := (mem_classNames_iff.1 e).1 hn
  have hbelow : e.Below d n := ⟨p, hp, howns, h p hp howns⟩
  exact hbelow.mem.1

/-- If a class never stands in a tree without another one below it, the walk meets the other one
first. -/
theorem mem_namesBefore_of_eachAbove :
    (∀ e : StyleElement, e.EachAbove d n → n ∈ e.classNames → d ∈ namesBefore n e.classNames) ∧
    ∀ es : List StyleElement, (∀ e ∈ es, e.EachAbove d n) → n ∈ classNamesOfAll es →
      d ∈ namesBefore n (classNamesOfAll es) := by
  refine StyleElement.induct (fun cs owned ih => ?_) ?_ fun e es ihe ihes => ?_
  · intro h hn
    obtain ⟨hcs, hroot⟩ := eachAbove_node.1 h
    rw [classNames_node] at hn ⊢
    by_cases hmem : n ∈ classNamesOfAll cs
    · rw [namesBefore_append_of_mem hmem]
      exact ih hcs hmem
    · -- The node itself owns `n`, and all that it is composed of comes before.
      have howns := (List.mem_append.1 hn).resolve_left hmem
      rw [namesBefore_append_of_notMem hmem]
      exact List.mem_append_left _ (hroot (owns_node.2 howns))
  · intro _ hn
    cases hn
  · intro h hn
    have he := h e List.mem_cons_self
    have hes := fun e' he' => h e' (List.mem_cons_of_mem e he')
    rw [classNamesOfAll_cons] at hn ⊢
    by_cases hmem : n ∈ e.classNames
    · rw [namesBefore_append_of_mem hmem]
      exact ihe he hmem
    · rw [namesBefore_append_of_notMem hmem]
      exact List.mem_append_right _ (ihes hes ((List.mem_append.1 hn).resolve_left hmem))

end StyleElement

namespace Client

open LawfulSink StyleElement

variable {σ : Type} [Sink σ]

/-! ## Histories of a class -/

/-- After the actions, the class is live in registry `k`. -/
def Live (c : Client σ) (k : Nat) (actions : List ClientAction) (n : ClassName) : Prop :=
  ∃ r, (c.run actions).registries[k]? = some r ∧ r.contains n = true

/-- Of the actions, the insertion of `e₀` made the class `n` live, and it has been live ever since. -/
structure LiveSince (c : Client σ) (k : Nat) (actions : List ClientAction) (n : ClassName)
    (before : List ClientAction) (e₀ : StyleElement) (after : List ClientAction) : Prop where
  split : actions = before ++ .insert k e₀ :: after
  mem : n ∈ e₀.classNames
  not_live : ¬ c.Live k before n
  live : ∀ mid, mid <+: after → c.Live k (before ++ .insert k e₀ :: mid) n

/-- The class `d` was live before the insertion of `e₀`, or the walk of `e₀` met it before `n`, and
it has been live ever since. -/
def Precedes (c : Client σ) (k : Nat) (before : List ClientAction) (e₀ : StyleElement)
    (after : List ClientAction) (d n : ClassName) : Prop :=
  (c.Live k before d ∨ d ∈ namesBefore n e₀.classNames) ∧
    ∀ mid, mid <+: after → c.Live k (before ++ .insert k e₀ :: mid) d

variable {c : Client σ} {k : Nat} {actions before after : List ClientAction} {a : ClientAction}
  {e₀ : StyleElement} {d n : ClassName}

/-- To ask a history whether a class is live is to ask the registry that it leads to. -/
theorem live_iff {r : Registry σ} (hr : (c.run actions).registries[k]? = some r) :
    c.Live k actions n ↔ r.contains n = true := by
  constructor
  · rintro ⟨r', hr', hn⟩
    cases hr'.symm.trans hr
    exact hn
  · intro hn
    exact ⟨r, hr, hn⟩

/-- What holds after each part of a longer list of actions holds after each part of the shorter one,
and at the end. -/
theorem forall_prefix_concat {P : List ClientAction → Prop} :
    (∀ mid, mid <+: after ++ [a] → P mid) ↔ (∀ mid, mid <+: after → P mid) ∧ P (after ++ [a]) := by
  simp only [List.prefix_concat_iff]
  constructor
  · intro h
    exact ⟨fun mid hmid => h mid (.inr hmid), h _ (.inl rfl)⟩
  · rintro ⟨h, hlast⟩ mid (rfl | hmid)
    · exact hlast
    · exact h mid hmid

/-- A class that is still live after one more action is live since the same insertion. -/
theorem LiveSince.concat (h : LiveSince c k actions n before e₀ after)
    (hn : c.Live k (actions ++ [a]) n) :
    LiveSince c k (actions ++ [a]) n before e₀ (after ++ [a]) := by
  have hsplit : actions ++ [a] = before ++ .insert k e₀ :: (after ++ [a]) := by
    rw [h.split, List.append_assoc, List.cons_append]
  refine ⟨hsplit, h.mem, h.not_live, forall_prefix_concat.2 ⟨h.live, ?_⟩⟩
  rw [← hsplit]
  exact hn

theorem LiveSince.precedes_concat (h : LiveSince c k actions n before e₀ after) :
    Precedes c k before e₀ (after ++ [a]) d n ↔
      Precedes c k before e₀ after d n ∧ c.Live k (actions ++ [a]) d := by
  have hsplit : actions ++ [a] = before ++ .insert k e₀ :: (after ++ [a]) := by
    rw [h.split, List.append_assoc, List.cons_append]
  rw [Precedes, forall_prefix_concat, ← hsplit, ← and_assoc]
  rfl

/-- What precedes a class has been live ever since. -/
theorem LiveSince.live_of_precedes (h : LiveSince c k actions n before e₀ after)
    (hd : Precedes c k before e₀ after d n) : c.Live k actions d := by
  rw [h.split]
  exact hd.2 after (List.prefix_refl after)

theorem liveSince_insert (hnot : ¬ c.Live k actions n) (hmem : n ∈ e₀.classNames)
    (hn : c.Live k (actions ++ [.insert k e₀]) n) :
    LiveSince c k (actions ++ [.insert k e₀]) n actions e₀ [] := by
  refine ⟨rfl, hmem, hnot, fun mid hmid => ?_⟩
  rw [List.prefix_nil.1 hmid]
  exact hn

theorem precedes_insert (hd : c.Live k (actions ++ [.insert k e₀]) d) :
    Precedes c k actions e₀ [] d n ↔ c.Live k actions d ∨ d ∈ namesBefore n e₀.classNames := by
  refine and_iff_left fun mid hmid => ?_
  rw [List.prefix_nil.1 hmid]
  exact hd

/-! ## Changes -/

variable [LawfulSink σ] {r t : Registry σ} {l l' : Ledger}

/-- Classes become live by the insertion of an element only, in the order of its walk. -/
theorem Change.succeeds (h : Change k r l a t l') (hr : r.Sound) :
    ∃ names, r.Succeeds names t ∧ ∀ n ∈ names, ∃ e, a = .insert k e ∧ names = e.classNames := by
  have hquiet : ∀ {t : Registry σ}, r.Succeeds [] t →
      ∃ names, r.Succeeds names t ∧ ∀ n ∈ names, ∃ e, a = .insert k e ∧ names = e.classNames := by
    intro t ht
    refine ⟨[], ht, fun n hn => ?_⟩
    cases hn
  cases h with
  | @inserted e n t h =>
    exact ⟨e.classNames, (Registry.entered_insertElement h).succeeds, fun _ _ => ⟨e, rfl, rfl⟩⟩
  | insertFailed h =>
    exact hquiet (.of_entries (Registry.recovered_of_insertElement_error hr h).entries)
  | released h =>
    rw [Registry.removeElement_eq]
    exact hquiet (.relinquishAll r _)
  | @insertedGlobal rule n reg t h | @insertGlobalFailed rule err t h =>
    have hentries := Registry.insertGlobal_entries r rule
    rw [h] at hentries
    exact hquiet (.of_entries hentries)
  | @releasedGlobal n reg rest hreg h =>
    exact hquiet (.of_entries (Registry.releaseGlobal_entries r reg))
  | operated | noted _ | idle => exact hquiet (.of_entries rfl)

/-- A listing sink stays in the order of its numbers. -/
theorem Change.ascending [ListingSink σ] (h : Change k r l a t l')
    (htallies : r.Tallies (classNamesOfAll l.elements)) (hr : Ascending r.sink) :
    Ascending t.sink := by
  cases h with
  | @inserted e n t h | @insertFailed e err t h =>
    obtain ⟨ms, -, hdoes⟩ := Registry.insertElement_does htallies e
    rw [h] at hdoes
    exact hr.serves hdoes.serves
  | @released n reg rest h =>
    obtain ⟨ms, -, hdoes⟩ := Registry.relinquishAll_does (tallies_released htallies h)
    rw [Registry.removeElement_eq]
    exact hr.serves hdoes.serves
  | @insertedGlobal rule n reg t h | @insertGlobalFailed rule err t h =>
    obtain ⟨handle, hserves, -⟩ := Registry.insertGlobal_serves r rule
    rw [h] at hserves
    exact hr.serves hserves
  | @releasedGlobal n reg rest hreg h => exact hr.serves (Registry.releaseGlobal_serves r reg)
  | operated => exact hr.operate _
  | noted _ | idle => exact hr

/-! ## Runs -/

/-- The registry and its ledger after the actions: what is registered was inserted, the classes live
are those registered, and the sink is in the order of its numbers and holds what the entries say. -/
structure Orderly (c : Client σ) (k : Nat) (actions : List ClientAction) (r : Registry σ)
    (l : Ledger) : Prop where
  reached : (c.run actions).registries[k]? = some r
  registered : ∀ e ∈ l.elements, ClientAction.insert k e ∈ actions
  tallies : r.Tallies (classNamesOfAll l.elements)
  ascending : Ascending r.sink
  holds : r.Holds (fun _ _ => True) (l.globals.flatMap fun p => p.2.held)

namespace Orderly

theorem handles_lt (h : Orderly c k actions r l) {e : RegistryEntry}
    (he : r.entries.get? n = some e) : ∀ i ∈ e.handles, i.id < next r.sink := by
  obtain ⟨charge, hcharge, -⟩ := h.holds
  intro i hi
  exact h.ascending.lt_next i (hcharge.mem_held he hi)

theorem sound (h : Orderly c k actions r l) : r.Sound := h.holds.choose_spec.1.sound

theorem standsBefore (h : Orderly c k actions r l) (hd : r.contains d = true)
    (hn : r.contains n = true) (hahead : r.Ahead d n) : r.StandsBefore d n := by
  obtain ⟨charge, hcharge, -⟩ := h.holds
  exact hahead.standsBefore hcharge h.ascending hd hn

theorem contains_iff (h : Orderly c k actions r l) :
    r.contains n = true ↔ ∃ e ∈ l.elements, n ∈ e.classNames := by
  rw [h.tallies.contains_iff]
  exact List.mem_flatMap

theorem start (hr : c.registries[k]? = some r) (hentries : r.entries = OrderedMap.empty)
    (hempty : held r.sink = []) : Orderly c k [] r .empty := by
  refine ⟨hr, ?_, .of_empty hentries, .of_held_nil hempty, .of_empty hentries hempty⟩
  intro e he
  cases he

/-- One more action keeps the invariants that do not speak of the order. -/
theorem change [ListingSink σ] (h : Orderly c k actions r l) (hchange : Change k r l a t l')
    (hclear : a ≠ .operate k .clear) (ht : (c.run (actions ++ [a])).registries[k]? = some t) :
    Orderly c k (actions ++ [a]) t l' := by
  refine ⟨ht, fun e he => ?_, hchange.tallies h.tallies, hchange.ascending h.tallies h.ascending,
    hchange.holds (fun _ _ _ _ _ _ _ => trivial) hclear h.holds⟩
  rcases hchange.elements e he with he | he
  · exact List.mem_append_left _ (h.registered e he)
  · rw [← he]
    exact List.mem_append_right _ (List.mem_singleton_self a)

end Orderly

/-- The order of the classes that are live is that in which they became live. -/
def Ranked (c : Client σ) (k : Nat) (actions : List ClientAction) (r : Registry σ) : Prop :=
  ∀ n, r.contains n = true → ∃ before e₀ after, LiveSince c k actions n before e₀ after ∧
    ∀ d, d ≠ n → r.contains d = true →
      (Precedes c k before e₀ after d n → r.Ahead d n) ∧
      (¬ Precedes c k before e₀ after d n → r.Ahead n d)

/-- One more action keeps the order. A class that was live keeps its insertion and its handles; one
that has become live has the new insertion, and all classes that were live are ahead of it. -/
theorem Ranked.change (h : Ranked c k actions r) (hr : Orderly c k actions r l)
    (hchange : Change k r l a t l') (ht : (c.run (actions ++ [a])).registries[k]? = some t) :
    Ranked c k (actions ++ [a]) t := by
  obtain ⟨names, hsucceeds, hnames⟩ := hchange.succeeds hr.sound
  have hbefore : ∀ n, c.Live k actions n ↔ r.contains n = true := fun n => live_iff hr.reached
  have hafter : ∀ n, c.Live k (actions ++ [a]) n ↔ t.contains n = true := fun n => live_iff ht
  intro n hn
  by_cases hlive : r.contains n = true
  · -- The class was live already. It is behind the same classes, and ahead of those that are new.
    obtain ⟨before, e₀, after, hsince, hrank⟩ := h n hlive
    refine ⟨before, e₀, after ++ [a], hsince.concat ((hafter n).2 hn), fun d hne hd => ?_⟩
    rw [hsince.precedes_concat, hafter, and_iff_left hd]
    by_cases hd' : r.contains d = true
    · obtain ⟨hahead, hbehind⟩ := hrank d hne hd'
      exact ⟨fun hp => hsucceeds.ahead_kept hd' hlive (hahead hp),
        fun hp => hsucceeds.ahead_kept hlive hd' (hbehind hp)⟩
    · refine ⟨fun hp => absurd ((hbefore d).1 (hsince.live_of_precedes hp)) hd', fun _ => ?_⟩
      exact hsucceeds.ahead_fresh (fun e he => hr.handles_lt he) hlive hd'
  · -- The class is new. It is behind those that were live, and new ones stand in the order of the walk.
    have hmem := hsucceeds.mem_names hlive hn
    obtain ⟨e, rfl, rfl⟩ := hnames n hmem
    refine ⟨actions, e, [], liveSince_insert (mt (hbefore n).1 hlive) hmem ((hafter n).2 hn),
      fun d hne hd => ?_⟩
    rw [precedes_insert ((hafter d).2 hd), hbefore]
    by_cases hd' : r.contains d = true
    · refine ⟨fun _ => hsucceeds.ahead_fresh (fun e he => hr.handles_lt he) hd' hlive, fun hp => ?_⟩
      exact absurd (.inl hd') hp
    · rw [or_iff_right hd']
      refine ⟨hsucceeds.ahead_order hd' hlive, fun hp => hsucceeds.ahead_order hlive hd' ?_⟩
      exact (mem_namesBefore_or (hsucceeds.mem_names hd' hd) hmem hne).resolve_left hp

variable [ListingSink σ]

/-- Both invariants hold after every history in which the sink is not cleared. The ranking needs the
other one for its step, so the induction carries them together. -/
theorem orderly_run {c : Client σ} (hc : c.Fresh) {k : Nat} {r₀ : Registry σ}
    (hr₀ : c.registries[k]? = some r₀) (hempty : held r₀.sink = []) {actions : List ClientAction}
    (hclear : .operate k .clear ∉ actions) {r : Registry σ}
    (hr : (c.run actions).registries[k]? = some r) :
    Orderly c k actions r (c.ledger k actions) ∧ Ranked c k actions r := by
  have hentries := hc.entries_empty r₀ (List.mem_of_getElem? hr₀)
  refine (run_change (P := fun actions r l => .operate k .clear ∉ actions →
    Orderly c k actions r l ∧ Ranked c k actions r) hc hr₀ (fun _ => ?_) ?_ actions hr).1 hclear
  · refine ⟨.start hr₀ hentries hempty, fun n hn => ?_⟩
    obtain ⟨e, he⟩ := Registry.contains_iff_exists.1 hn
    rw [hentries, OrderedMap.get?_empty] at he
    cases he
  · intro actions a r l t l' hP hchange ht hclear
    rw [List.mem_append, List.mem_singleton, not_or] at hclear
    obtain ⟨horderly, hranked⟩ := hP hclear.1
    exact ⟨horderly.change hchange (Ne.symm hclear.2) ht, hranked.change horderly hchange ht⟩

/-- Where a class never comes without another one below it, the other one is live whenever it is. -/
theorem live_of_eachAbove {c : Client σ} (hc : c.Fresh) {k : Nat} {r₀ : Registry σ}
    (hr₀ : c.registries[k]? = some r₀) (hempty : held r₀.sink = []) {actions : List ClientAction}
    (hclear : .operate k .clear ∉ actions) {d n : ClassName}
    (habove : ∀ e, .insert k e ∈ actions → e.EachAbove d n) (hn : c.Live k actions n) :
    c.Live k actions d := by
  obtain ⟨r, hr, hn⟩ := hn
  obtain ⟨horderly, -⟩ := orderly_run hc hr₀ hempty hclear hr
  obtain ⟨e, he, hmem⟩ := horderly.contains_iff.1 hn
  refine ⟨r, hr, horderly.contains_iff.2 ⟨e, he, ?_⟩⟩
  exact (habove e (horderly.registered e he)).mem hmem

/-- Over a history without a clearing of the sink, the rules of a class `n` and those of a class `d`
that stands below it in a registered tree are in an order that the history of insertions decides. If
`d` was live when `n` became live, or came before it in the walk of the tree with which `n` became
live, and has been live ever since, all rules of `d` stand before all rules of `n`, and otherwise they
stand behind them. In particular, they stand before them if in every element inserted, each node that
owns `n` has one that owns `d` below it. -/
theorem cascade_follows_insertions {c : Client σ} (hc : c.Fresh) {k : Nat} {r₀ : Registry σ}
    (hr₀ : c.registries[k]? = some r₀) (hempty : held r₀.sink = []) {actions : List ClientAction}
    (hclear : .operate k .clear ∉ actions) {r : Registry σ}
    (hr : (c.run actions).registries[k]? = some r) {e : StyleElement}
    (he : e ∈ (c.ledger k actions).elements) {d n : ClassName} (hbelow : e.Below d n)
    (hne : d ≠ n) :
    (∃ before e₀ after, LiveSince c k actions n before e₀ after ∧
      (Precedes c k before e₀ after d n → r.StandsBefore d n) ∧
      (¬ Precedes c k before e₀ after d n → r.StandsBefore n d)) ∧
    ((∀ e', .insert k e' ∈ actions → e'.EachAbove d n) → r.StandsBefore d n) := by
  obtain ⟨horderly, hranked⟩ := orderly_run hc hr₀ hempty hclear hr
  have hd := horderly.contains_iff.2 ⟨e, he, hbelow.mem.1⟩
  have hn := horderly.contains_iff.2 ⟨e, he, hbelow.mem.2⟩
  obtain ⟨before, e₀, after, hsince, hrank⟩ := hranked n hn
  obtain ⟨hahead, hbehind⟩ := hrank d hne hd
  refine ⟨⟨before, e₀, after, hsince, fun hp => horderly.standsBefore hd hn (hahead hp),
    fun hp => horderly.standsBefore hn hd (hbehind hp)⟩, fun habove => ?_⟩
  refine horderly.standsBefore hd hn (hahead ⟨.inr ?_, fun mid hmid => ?_⟩)
  · have hinsert : ClientAction.insert k e₀ ∈ actions := by simp [hsince.split]
    exact mem_namesBefore_of_eachAbove.1 e₀ (habove e₀ hinsert) hsince.mem
  · -- What is inserted up to then is inserted in the whole history.
    have hsub : before ++ .insert k e₀ :: mid ⊆ actions := by
      rw [hsince.split]
      apply List.IsPrefix.subset
      exact (List.prefix_append_right_inj before).2 (List.cons_prefix_cons.2 ⟨rfl, hmid⟩)
    exact live_of_eachAbove hc hr₀ hempty (fun h => hclear (hsub h))
      (fun e' he' => habove e' (hsub he')) (hsince.live mid hmid)

/-- A page, and a card with the page in it; the page is given up later. -/
theorem cascade_follows_insertions_card :
    let base : StyleElement := .node [] (some ⟨⟨"B", by decide⟩, [⟨"b"⟩]⟩)
    let page : StyleElement := .node [base] (some ⟨⟨"P", by decide⟩, [⟨"p"⟩]⟩)
    let card : StyleElement := .node [base, page] (some ⟨⟨"C", by decide⟩, [⟨"c"⟩]⟩)
    let c : Client MemorySink := .ofSinks ⟨.strict⟩ [.empty]
    let actions : List ClientAction := [.insert 0 page, .insert 0 card, .release 0 0]
    ∃ r, (c.run actions).registries[0]? = some r ∧ card ∈ (c.ledger 0 actions).elements ∧
      r.StandsBefore ⟨"B", by decide⟩ ⟨"P", by decide⟩ ∧
      ∃ before e₀ after, LiveSince c 0 actions ⟨"P", by decide⟩ before e₀ after := by
  intro base page card c actions
  have hc : c.Fresh := fresh_ofSinks ⟨.strict⟩ [MemorySink.empty]
  have hr₀ : c.registries[0]? = some (.new 0 ⟨.strict⟩ .empty) := rfl
  have hsome : (c.run actions).registries[0]?.isSome := by decide +kernel
  obtain ⟨r, hr⟩ := Option.isSome_iff_exists.1 hsome
  have hcard : card ∈ (c.ledger 0 actions).elements := by decide +kernel
  have hbelow : card.Below ⟨"B", by decide⟩ ⟨"P", by decide⟩ := by
    simp [card, page, base, below_node, owns_node, classNamesOfAll, classNames, fragments,
      fragmentsOfAll]
  have habove : ∀ e, .insert 0 e ∈ actions →
      e.EachAbove ⟨"B", by decide⟩ ⟨"P", by decide⟩ := by
    simp [actions, card, page, base, eachAbove_node, owns_node, classNamesOfAll, classNames,
      fragments, fragmentsOfAll]
  obtain ⟨⟨before, e₀, after, hsince, -⟩, hstands⟩ :=
    cascade_follows_insertions hc hr₀ rfl (by decide) hr hcard hbelow (by decide)
  exact ⟨r, hr, hcard, hstands habove, before, e₀, after, hsince⟩

/-- A class that was inserted on its own stays where it is when a page brings it along once more, and so
stands before the class below it in the page. -/
theorem parent_ahead_of_child_across_insertions :
    let child : ClassName := ⟨"fXSETt", by decide⟩
    let parent : ClassName := ⟨"hUUekU", by decide⟩
    let wide : StyleElement := .node [] (some ⟨child, [⟨".fXSETt\x7bwidth:10px;\x7d"⟩]⟩)
    let red : StyleElement := .node [] (some ⟨parent, [⟨".hUUekU\x7bcolor:red;\x7d"⟩]⟩)
    let page : StyleElement := .node [wide] (some ⟨parent, [⟨".hUUekU\x7bcolor:red;\x7d"⟩]⟩)
    let c : Client MemorySink := .ofSinks ⟨.strict⟩ [.empty]
    let actions : List ClientAction := [.insert 0 red, .insert 0 page]
    (∀ e, .insert 0 e ∈ actions → ¬ e.Below parent child) ∧
      page ∈ (c.ledger 0 actions).elements ∧ page.Below child parent ∧
      ∃ r, (c.run actions).registries[0]? = some r ∧
        r.StandsBefore parent child ∧ ¬ r.StandsBefore child parent := by
  intro child parent wide red page c actions
  refine ⟨?_, by decide +kernel, ?_, ?_⟩
  · simp [actions, page, red, wide, parent, child, below_node, owns_node, classNamesOfAll, classNames,
      fragments, fragmentsOfAll]
  · simp [page, wide, parent, child, below_node, owns_node, classNamesOfAll, classNames, fragments,
      fragmentsOfAll]
  · refine ⟨_, rfl, ⟨_, _, rfl, rfl, by decide +kernel⟩, ?_⟩
    rintro ⟨e, e', he, he', hstands⟩
    cases he
    cases he'
    revert hstands
    decide +kernel

end Client

end ScopedCss
