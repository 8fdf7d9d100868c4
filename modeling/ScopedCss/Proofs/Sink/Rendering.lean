import ScopedCss.Proofs.Sink.Regions

/-!
# The order in which a sheet is rendered

A sheet renders the region of at-rules last, and it tells an at-rule by the first character of the
text. A rule with blanks in front of its at-sign is taken all the same, since blanks around a rule are
no fault of it, and goes to the plain rules. There the rules stand in the order of their numbers
(`BaseSorted`). So at-rules come last unless such a rule was taken before a plain one.
-/

namespace ScopedCss

/-! ## At-signs behind blanks -/

/-- A character that is not blank stays in front when blanks around a text are taken off. -/
theorem Text.head?_trim {c : Char} (hc : Text.isBlank c = false) (cs : List Char) :
    (Text.trim (c :: cs)).head? = some c := by
  have hfront : (c :: cs).dropWhile Text.isBlank = c :: cs :=
    List.dropWhile_cons_of_neg (by simp [hc])
  have hlast : [c].dropWhile Text.isBlank = [c] := List.dropWhile_cons_of_neg (by simp [hc])
  rw [Text.trim, hfront, List.reverse_cons, List.dropWhile_append, hlast]
  split
  · rfl
  · simp

namespace StyleRule

/-- Whether the text, without the blanks around it, begins with an at-sign. -/
def readsAsAtRule (rule : StyleRule) : Bool := (Text.trim rule.text.toList).head? = some '@'

theorem readsAsAtRule_of_isAtRule {rule : StyleRule} (h : rule.isAtRule = true) :
    rule.readsAsAtRule = true := by
  have hhead : rule.text.toList.head? = some '@' := of_decide_eq_true h
  obtain ⟨cs, hcs⟩ := List.head?_eq_some_iff.1 hhead
  rw [readsAsAtRule, hcs]
  exact decide_eq_true (Text.head?_trim (by decide) cs)

/-- If the at-sign is not the first character, a blank is. -/
theorem exists_isBlank_of_readsAsAtRule {rule : StyleRule} (h : rule.readsAsAtRule = true)
    (hraw : rule.isAtRule = false) :
    ∃ c, rule.text.toList.head? = some c ∧ Text.isBlank c = true := by
  have htrim : (Text.trim rule.text.toList).head? = some '@' := of_decide_eq_true h
  have hhead : rule.text.toList.head? ≠ some '@' := of_decide_eq_false hraw
  cases htext : rule.text.toList with
  | nil =>
    rw [htext] at htrim
    cases htrim
  | cons c cs =>
    refine ⟨c, rfl, ?_⟩
    by_contra hc
    rw [htext, Text.head?_trim (Bool.eq_false_iff.2 hc)] at htrim
    rw [htext, List.head?_cons] at hhead
    exact hhead htrim

end StyleRule

/-- No rule that reads as an at-rule stands in front of one that does not. -/
def AtRulesLast (rules : List StyleRule) : Prop :=
  rules.Pairwise fun rule rule' => rule.readsAsAtRule = true → rule'.readsAsAtRule = true

instance : DecidablePred AtRulesLast := fun rules => by unfold AtRulesLast; infer_instance

/-- At-rules behind a list of rules never disturb it: nothing has to come after them. -/
theorem atRulesLast_append {rules rules' : List StyleRule}
    (h : ∀ rule ∈ rules', rule.readsAsAtRule = true) :
    AtRulesLast (rules ++ rules') ↔ AtRulesLast rules := by
  have hlast : AtRulesLast rules' :=
    List.pairwise_of_forall_mem_list fun _ _ rule hrule _ => h rule hrule
  constructor
  · intro hall
    exact (List.pairwise_append.1 hall).1
  · intro hrules
    exact List.pairwise_append.2 ⟨hrules, hlast, fun _ _ rule hrule _ => h rule hrule⟩

/-! ## Rules in the order of their numbers -/

/-- What holds of two rules of which one stands behind the other can be said by their numbers. -/
theorem HeldRules.pairwise_iff_of_sorted {held : HeldRules} {R : StyleRule → StyleRule → Prop}
    (hsorted : held.Pairwise fun p q => p.1.id < q.1.id) :
    held.rules.Pairwise R ↔ ∀ p ∈ held, ∀ q ∈ held, p.1.id < q.1.id → R p.2 q.2 := by
  rw [HeldRules.rules, List.pairwise_map]
  constructor
  · intro hR p hp q hq
    -- Two rules that stand the other way round have their numbers the other way round.
    have hself : ∀ p ∈ held, p.1.id < p.1.id → R p.2 p.2 := by
      intro p _ hlt
      omega
    have hstraight : held.Pairwise fun p q => p.1.id < q.1.id → R p.2 q.2 := by
      refine hR.imp ?_
      intro p q h _
      exact h
    have hflip : held.Pairwise fun p q => q.1.id < p.1.id → R q.2 p.2 := by
      refine hsorted.imp fun hlt hgt => ?_
      omega
    exact List.Pairwise.forall_of_forall_of_flip
      (R := fun p q : Handle × StyleRule => p.1.id < q.1.id → R p.2 q.2) hself hstraight hflip hp hq
  · intro h
    exact hsorted.imp_of_mem fun hp hq hlt => h _ hp _ hq hlt

namespace SheetSink

/-- The plain rules stand in the order of their numbers, and the next number is behind them all. -/
structure BaseSorted (s : SheetSink) : Prop where
  sorted : s.base.Pairwise fun p q => p.1.id < q.1.id
  lt_next : ∀ p ∈ s.base, p.1.id < s.next

namespace BaseSorted

variable {s : SheetSink}

theorem empty : BaseSorted SheetSink.empty := by
  constructor
  · exact .nil
  · intro p hp
    cases hp

/-- Taking a rule keeps the plain rules in the order of their numbers, for a rule comes to the end
and has the largest number so far. -/
theorem add (hs : BaseSorted s) (rule : StyleRule) : BaseSorted (s.add rule).2 := by
  rcases add_cases s rule with ⟨-, -, h, t, hadd⟩ | ⟨-, e, hadd⟩
  · obtain ⟨hh, hnext, hbase, -⟩ := add_ok_regions hadd
    have hid : h.id = s.next := congrArg Handle.id hh
    rw [hadd]
    show BaseSorted t
    cases hkind : rule.isAtRule with
    | true =>
      have hsame : t.base = s.base := by rw [hbase, hkind]; rfl
      constructor
      · rw [hsame]
        exact hs.sorted
      · intro p hp
        rw [hsame] at hp
        have hlt := hs.lt_next p hp
        omega
    | false =>
      have hlast : t.base = s.base ++ [(h, rule)] := by rw [hbase, hkind]; rfl
      constructor
      · rw [hlast]
        refine List.pairwise_append.2 ⟨hs.sorted, List.pairwise_singleton _ _, ?_⟩
        intro p hp q hq
        rw [List.mem_singleton.1 hq, hid]
        exact hs.lt_next p hp
      · intro p hp
        rw [hlast] at hp
        rcases List.mem_append.1 hp with hp | hp
        · have hlt := hs.lt_next p hp
          omega
        · rw [List.mem_singleton.1 hp]
          show h.id < t.next
          omega
  · rw [hadd]
    exact hs

/-- Giving up a rule takes at most one out of a list that is in order. -/
theorem retract (hs : BaseSorted s) (h : Handle) : BaseSorted (s.retract h) := by
  have hsub : (s.retract h).base.Sublist s.base := by
    unfold SheetSink.retract
    split
    · exact HeldRules.sublist_retract s.base h
    · exact List.Sublist.refl s.base
  have hnext : (s.retract h).next = s.next := LawfulSink.next_retract s h
  constructor
  · exact hs.sorted.sublist hsub
  · intro p hp
    rw [hnext]
    exact hs.lt_next p (hsub.subset hp)

/-- No step of a sheet disturbs the order of its plain rules, connecting and disconnecting included.
-/
theorem perform (hs : BaseSorted s) (step : SheetStep) : BaseSorted (Sink.perform s step).2 := by
  cases step with
  | request q =>
    cases q with
    | add rule => exact hs.add rule
    | addGlobal rule => exact hs.add rule
    | retract h => exact hs.retract h
  | attach => exact ⟨hs.sorted, hs.lt_next⟩
  | detach => exact ⟨hs.sorted, hs.lt_next⟩

theorem performAll (hs : BaseSorted s) (steps : List SheetStep) :
    BaseSorted (Sink.performAll s steps) := by
  induction steps generalizing s with
  | nil => exact hs
  | cons step steps ih => exact ih (hs.perform step)

end BaseSorted

/-! ## At-rules last -/

/-- Whatever happened to a sheet, it renders its rules one to a line, and the at-rules come last exactly
if no at-rule among the plain rules has a smaller number than a plain rule that does not read as one. An
at-rule is among the plain rules only if its text begins with a blank. So at-rules come last if the
at-sign is the first character of each of them. -/
theorem atRulesLast_rules_iff (steps : List SheetStep) :
    let s := Sink.performAll empty steps
    s.toCss = String.join (s.rules.map fun rule => rule.text ++ "\n") ∧
      (AtRulesLast s.rules ↔ ∀ p ∈ s.base, ∀ q ∈ s.base, p.1.id < q.1.id →
        p.2.readsAsAtRule = true → q.2.readsAsAtRule = true) ∧
      (∀ p ∈ s.base, p.2.readsAsAtRule = true →
        ∃ c, p.2.text.toList.head? = some c ∧ Text.isBlank c = true) ∧
      (∀ p ∈ s.atRules, p.2.readsAsAtRule = true) ∧
      ((∀ rule ∈ s.rules, rule.readsAsAtRule = true → rule.isAtRule = true) →
        AtRulesLast s.rules) := by
  intro s
  have hbeside : Beside s (Sink.performAll MemorySink.empty (Sink.withoutRefused empty steps)) :=
    (Beside.empty.performAll steps).2
  have hsorted : BaseSorted s := BaseSorted.empty.performAll steps
  have hplain : ∀ p ∈ s.base, p.2.isAtRule = false := by
    intro p hp
    rw [hbeside.base] at hp
    exact beq_iff_eq.1 (List.mem_filter.1 hp).2
  have hat : ∀ p ∈ s.atRules, p.2.readsAsAtRule = true := by
    intro p hp
    rw [hbeside.atRules] at hp
    exact StyleRule.readsAsAtRule_of_isAtRule (beq_iff_eq.1 (List.mem_filter.1 hp).2)
  have hiff : AtRulesLast s.rules ↔ ∀ p ∈ s.base, ∀ q ∈ s.base, p.1.id < q.1.id →
      p.2.readsAsAtRule = true → q.2.readsAsAtRule = true := by
    have hatRules : ∀ rule ∈ s.atRules.rules, rule.readsAsAtRule = true := by
      intro rule hrule
      obtain ⟨p, hp, rfl⟩ := List.mem_map.1 hrule
      exact hat p hp
    rw [rules, atRulesLast_append hatRules]
    exact HeldRules.pairwise_iff_of_sorted hsorted.sorted
  refine ⟨rfl, hiff, ?_, hat, ?_⟩
  · intro p hp hreads
    exact StyleRule.exists_isBlank_of_readsAsAtRule hreads (hplain p hp)
  · intro hfirst
    refine hiff.2 fun p hp q _ _ hreads => ?_
    have hmem : p.2 ∈ s.rules := List.mem_append_left _ (List.mem_map_of_mem hp)
    have hraw := hfirst p.2 hmem hreads
    rw [hplain p hp] at hraw
    cases hraw

/-- A plain rule, an at-rule and another plain rule, of which the first is given up. -/
theorem atRulesLast_rules_iff_mixed :
    let atRule : StyleRule := ⟨"@media print\x7b.a\x7bcolor:black;\x7d\x7d\n"⟩
    let rule : StyleRule := ⟨" .a\x7bcolor:red;\x7d"⟩
    let s := Sink.performAll empty [.request (.add rule), .request (.addGlobal atRule),
      .request (.add rule), .request (.retract ⟨0⟩)]
    (∀ rule ∈ s.rules, rule.readsAsAtRule = true → rule.isAtRule = true) ∧ AtRulesLast s.rules ∧
      s.rules = [rule, atRule] := by
  intro atRule rule s
  have hfirst : ∀ rule ∈ s.rules, rule.readsAsAtRule = true → rule.isAtRule = true := by
    decide +kernel
  obtain ⟨-, -, -, -, hlast⟩ := atRulesLast_rules_iff [.request (.add rule),
    .request (.addGlobal atRule), .request (.add rule), .request (.retract ⟨0⟩)]
  exact ⟨hfirst, hlast hfirst, by decide +kernel⟩

/-- An at-rule with a blank in front of its at-sign is taken, and rendered ahead of a plain rule. -/
theorem indented_atRule_ahead_of_rule :
    let atRule : StyleRule := ⟨" @media print\x7b.a\x7bcolor:black;\x7d\x7d"⟩
    let rule : StyleRule := ⟨".a\x7bcolor:red;\x7d"⟩
    let s := Sink.performAll empty [.request (.add atRule), .request (.add rule)]
    atRule.readsAsAtRule = true ∧ rule.readsAsAtRule = false ∧ s.rules = [atRule, rule] ∧
      s.toCss = " @media print\x7b.a\x7bcolor:black;\x7d\x7d\n.a\x7bcolor:red;\x7d\n" ∧
      ¬ AtRulesLast s.rules := by
  decide +kernel

end SheetSink

end ScopedCss
