import ScopedCss.Proofs.Sink.Serving
import ScopedCss.Sink.Calling

/-!
# A sheet beside a list

A sheet keeps its rules in two regions and looks a handle up in one region after the other. A list
that is asked for the same, the refused rules left out, holds the same rules without any regions, and
both give out the same handles. So each region is what the list holds, filtered.

That a rule is given up in the right region rests on the handles: no two rules of the list have the
same one, whatever has been given up before (`Beside`).
-/

namespace ScopedCss

/-! ## Steps -/

/-- What can happen to a sheet. -/
inductive SheetStep where
  /-- It is asked to take a rule, or to give one up. -/
  | request (q : SinkRequest)
  /-- It is connected. -/
  | attach
  /-- It is disconnected. -/
  | detach
  deriving DecidableEq

namespace Sink

variable {σ : Type} [Sink σ]

/-- What a sink answers to a request, if there is anything to answer, and what becomes of it. -/
def serve (s : σ) : SinkRequest → Option (Except SinkError Handle) × σ
  | .add rule => let (answer, t) := add s rule; (some answer, t)
  | .addGlobal rule => let (answer, t) := addGlobal s rule; (some answer, t)
  | .retract h => (none, retract s h)

/-- What a sink answers in a step, and what becomes of it. -/
def perform (s : σ) : SheetStep → Option (Except SinkError Handle) × σ
  | .request q => serve s q
  | .attach => (none, operate .attach s)
  | .detach => (none, operate .detach s)

/-- The sink after several steps. -/
def performAll (s : σ) (steps : List SheetStep) : σ := steps.foldl (fun s step => (perform s step).2) s

/-- The handles that the sink gives out in several steps, in order. -/
def givenOut (s : σ) : List SheetStep → List Handle
  | [] => []
  | step :: steps =>
    let (answer, t) := perform s step
    (answer.bind Except.toOption).toList ++ givenOut t steps

/-- The steps without those in which the sink refuses a rule. -/
def withoutRefused (s : σ) : List SheetStep → List SheetStep
  | [] => []
  | step :: steps =>
    match perform s step with
    | (some (.error _), t) => withoutRefused t steps
    | (_, t) => step :: withoutRefused t steps

end Sink

open LawfulSink

/-! ## Regions -/

namespace HeldRules

/-- The rules of one kind: the at-rules, or the others. -/
def ofKind (held : HeldRules) (atRule : Bool) : HeldRules :=
  held.filter fun p => p.2.isAtRule == atRule

theorem ofKind_append (held : HeldRules) (h : Handle) (rule : StyleRule) (atRule : Bool) :
    ofKind (held ++ [(h, rule)]) atRule =
      if rule.isAtRule = atRule then held.ofKind atRule ++ [(h, rule)] else held.ofKind atRule := by
  rw [ofKind, ofKind, List.filter_append]
  by_cases hkind : rule.isAtRule = atRule
  · simp [hkind]
  · simp [hkind]

/-- Giving up a rule leaves the rules of a kind as if it had been given up among them. -/
theorem ofKind_retract {held : HeldRules} (hn : (held.map Prod.fst).Nodup) (h : Handle)
    (atRule : Bool) : (held.retract h).ofKind atRule = (held.ofKind atRule).retract h := by
  have hn' : ((held.ofKind atRule).map Prod.fst).Nodup := hn.sublist (List.filter_sublist.map _)
  rw [retract_eq_filter hn, retract_eq_filter hn', ofKind, ofKind, List.filter_filter,
    List.filter_filter]
  exact List.filter_congr fun q _ => Bool.and_comm _ _

end HeldRules

namespace SheetSink

/-- The list `m` holds what the sheet `s` holds, without regions. -/
structure Beside (s : SheetSink) (m : MemorySink) : Prop where
  next : s.next = m.next
  base : s.base = m.held.ofKind false
  atRules : s.atRules = m.held.ofKind true
  faultless : ∀ p ∈ m.held, ruleFault p.2 = none
  numbered : WellNumbered m

/-- A sheet takes a rule if it is attached and finds no fault in it. Otherwise it is left as it was. -/
theorem add_cases (s : SheetSink) (rule : StyleRule) :
    (s.attached = true ∧ ruleFault rule = none ∧ ∃ h t, s.add rule = (.ok h, t)) ∨
    ((s.attached = false ∨ ruleFault rule ≠ none) ∧ ∃ e, s.add rule = (.error e, s)) := by
  unfold add
  cases s.attached with
  | false => exact .inr ⟨.inl rfl, _, rfl⟩
  | true =>
    cases ruleFault rule with
    | some reason => exact .inr ⟨.inr (by simp), _, rfl⟩
    | none =>
      refine .inl ⟨rfl, rfl, ⟨s.next⟩, ?_⟩
      cases rule.isAtRule with
      | false => exact ⟨_, rfl⟩
      | true => exact ⟨_, rfl⟩

theorem add_refuses_iff (s : SheetSink) (rule : StyleRule) :
    (∃ e t, s.add rule = (.error e, t)) ↔ s.attached = false ∨ ruleFault rule ≠ none := by
  rcases add_cases s rule with ⟨hattached, hfault, h, t, hadd⟩ | ⟨hrefused, e, hadd⟩
  · simp [hattached, hfault, hadd]
  · exact ⟨fun _ => hrefused, fun _ => ⟨e, s, hadd⟩⟩

/-- A rule that a sheet takes comes to the end of one of its regions, which its kind decides, and
the other region stays as it is. -/
theorem add_ok_regions {s t : SheetSink} {rule : StyleRule} {h : Handle}
    (hadd : s.add rule = (.ok h, t)) :
    h = ⟨s.next⟩ ∧ t.next = s.next + 1 ∧
      t.base = (if rule.isAtRule = false then s.base ++ [(h, rule)] else s.base) ∧
      t.atRules = if rule.isAtRule = true then s.atRules ++ [(h, rule)] else s.atRules := by
  obtain ⟨rfl, rfl⟩ := add_ok_eq hadd
  cases rule.isAtRule with
  | false => exact ⟨rfl, rfl, rfl, rfl⟩
  | true => exact ⟨rfl, rfl, rfl, rfl⟩

/-- The sheet refuses a rule and is left as it was, or the list answers the same and goes on beside the
sheet. -/
def InStep (s : SheetSink) (p : Option (Except SinkError Handle) × SheetSink)
    (q : Option (Except SinkError Handle) × MemorySink) : Prop :=
  (∃ e, p = (some (.error e), s)) ∨
    q.1 = p.1 ∧ (∀ e, p.1 ≠ some (.error e)) ∧ Beside p.2 q.2

namespace Beside

variable {s t : SheetSink} {m : MemorySink} {rule : StyleRule} {h : Handle}

theorem empty : Beside .empty .empty := by
  refine ⟨rfl, rfl, rfl, ?_, wellNumbered_of_held_nil rfl⟩
  intro p hp
  cases hp

/-- A rule that the sheet takes comes last in its region, and last in the list. -/
theorem add (hb : Beside s m) (hadd : s.add rule = (.ok h, t)) :
    m.add rule = (.ok h, (m.add rule).2) ∧ Beside t (m.add rule).2 := by
  have hfault : ruleFault rule = none := by
    rcases add_cases s rule with ⟨-, hfault, -⟩ | ⟨-, e, herror⟩
    · exact hfault
    · rw [hadd] at herror
      cases herror
  obtain ⟨hh, hnext, hbase, hatRules⟩ := add_ok_regions hadd
  rw [hb.next] at hh hnext
  have hheld : (m.add rule).2.held = m.held ++ [(h, rule)] := by rw [hh]; rfl
  refine ⟨by rw [hh]; rfl, hnext, ?_, ?_, fun p hp => ?_, hb.numbered.add rule⟩
  · rw [hbase, hb.base, hheld, HeldRules.ofKind_append]
  · rw [hatRules, hb.atRules, hheld, HeldRules.ofKind_append]
  · rw [hheld] at hp
    rcases List.mem_append.1 hp with hp | hp
    · exact hb.faultless p hp
    · rw [List.mem_singleton.1 hp]
      exact hfault

/-- A handle is not in both regions. -/
theorem ne_of_mem (hb : Beside s m) {p q : Handle × StyleRule} (hp : p ∈ s.base)
    (hq : q ∈ s.atRules) : p.1 ≠ q.1 := by
  intro e
  rw [hb.base] at hp
  rw [hb.atRules] at hq
  obtain ⟨hp, hkind⟩ := List.mem_filter.1 hp
  obtain ⟨hq, hkind'⟩ := List.mem_filter.1 hq
  have hpq : p = q := List.inj_on_of_nodup_map hb.numbered.nodup hp hq e
  rw [hpq] at hkind
  rw [beq_iff_eq] at hkind hkind'
  rw [hkind] at hkind'
  cases hkind'

/-- The rule that is given up goes from the region in which it is. Where no rule has the handle, both
regions and the list stay as they are. -/
theorem retract (hb : Beside s m) (h : Handle) : Beside (s.retract h) (m.retract h) := by
  have hregion : ∀ atRule, (m.held.retract h).ofKind atRule = (m.held.ofKind atRule).retract h :=
    HeldRules.ofKind_retract hb.numbered.nodup h
  have hbase : (s.retract h).base = s.base.retract h := by
    unfold SheetSink.retract
    split
    · rfl
    · next hout =>
      refine (List.eraseP_of_forall_not fun p hp e => hout ?_).symm
      exact List.any_eq_true.2 ⟨p, hp, e⟩
  have hatRules : (s.retract h).atRules = s.atRules.retract h := by
    unfold SheetSink.retract
    split
    · next hin =>
      obtain ⟨p, hp, e⟩ := List.any_eq_true.1 hin
      refine (List.eraseP_of_forall_not fun q hq e' => hb.ne_of_mem hp hq ?_).symm
      exact (of_decide_eq_true e).trans (of_decide_eq_true e').symm
    · rfl
  have hnext : (s.retract h).next = s.next := next_retract s h
  refine ⟨hnext.trans hb.next, ?_, ?_, fun p hp => ?_, hb.numbered.retract h⟩
  · rw [hbase, hb.base]
    exact (hregion false).symm
  · rw [hatRules, hb.atRules]
    exact (hregion true).symm
  · exact hb.faultless p ((HeldRules.sublist_retract _ _).subset hp)

/-- Connecting or disconnecting the sheet. -/
theorem operate (hb : Beside s m) (op : SinkOperation) (hop : op ≠ .clear) :
    Beside (s.operate op) (m.operate op) := by
  cases op with
  | clear => exact absurd rfl hop
  | attach => exact ⟨hb.next, hb.base, hb.atRules, hb.faultless, hb.numbered⟩
  | detach => exact ⟨hb.next, hb.base, hb.atRules, hb.faultless, hb.numbered⟩

/-- A rule that is offered to the sheet, and to the list if the sheet takes it. -/
theorem offer (hb : Beside s m) (rule : StyleRule) :
    InStep s (some (s.add rule).1, (s.add rule).2) (some (m.add rule).1, (m.add rule).2) := by
  rcases add_cases s rule with ⟨-, -, h, t, hadd⟩ | ⟨-, e, hadd⟩
  · obtain ⟨hanswer, ht⟩ := hb.add hadd
    rw [hadd, hanswer]
    exact .inr ⟨rfl, fun e he => (by cases he), ht⟩
  · rw [hadd]
    exact .inl ⟨e, rfl⟩

/-- One step of a sheet and of the list beside it, requests and connections alike: either the sheet
refuses, or both answer the same and stay beside each other. -/
theorem perform (hb : Beside s m) (step : SheetStep) :
    InStep s (Sink.perform s step) (Sink.perform m step) := by
  have hquiet : ∀ {t : SheetSink} {m' : MemorySink}, Beside t m' → InStep s (none, t) (none, m') :=
    fun ht => .inr ⟨rfl, fun e he => (by cases he), ht⟩
  cases step with
  | request q =>
    cases q with
    | add rule => exact hb.offer rule
    | addGlobal rule => exact hb.offer rule
    | retract h => exact hquiet (hb.retract h)
  | attach => exact hquiet (hb.operate .attach (by simp))
  | detach => exact hquiet (hb.operate .detach (by simp))

/-- The list that goes through the same steps, the refused rules left out, gives out the same handles and
ends up beside the sheet. -/
theorem performAll (hb : Beside s m) (steps : List SheetStep) :
    Sink.givenOut m (Sink.withoutRefused s steps) = Sink.givenOut s steps ∧
      Beside (Sink.performAll s steps) (Sink.performAll m (Sink.withoutRefused s steps)) := by
  induction steps generalizing s m with
  | nil => exact ⟨rfl, hb⟩
  | cons step steps ih =>
    have hstep := hb.perform step
    rcases hs : Sink.perform s step with ⟨answer, t⟩
    rw [hs] at hstep
    rcases hstep with ⟨e, hrefused⟩ | ⟨hanswer, hnoerror, hbeside⟩
    · cases hrefused
      have hsteps : Sink.withoutRefused s (step :: steps) = Sink.withoutRefused s steps := by
        rw [Sink.withoutRefused, hs]
      have hgiven : Sink.givenOut s (step :: steps) = Sink.givenOut s steps := by
        rw [Sink.givenOut, hs]
        rfl
      have hafter : Sink.performAll s (step :: steps) = Sink.performAll s steps := by
        show Sink.performAll (Sink.perform s step).2 steps = _
        rw [hs]
      rw [hsteps, hgiven, hafter]
      exact ih hb
    · obtain ⟨hgiven, hafter⟩ := ih hbeside
      rcases hm : Sink.perform m step with ⟨answer', m'⟩
      rw [hm] at hanswer hgiven hafter
      obtain rfl : answer' = answer := hanswer
      have hsteps : Sink.withoutRefused s (step :: steps) = step :: Sink.withoutRefused t steps := by
        rw [Sink.withoutRefused, hs]
        split
        · next e _ heq => cases heq; exact absurd rfl (hnoerror e)
        · next heq => cases heq; rfl
      rw [hsteps]
      refine ⟨?_, ?_⟩
      · rw [Sink.givenOut, hm, Sink.givenOut, hs]
        exact congrArg _ hgiven
      · show Beside (Sink.performAll (Sink.perform s step).2 steps)
          (Sink.performAll (Sink.perform m step).2 (Sink.withoutRefused t steps))
        rw [hs, hm]
        exact hafter

end Beside

/-- A sheet and a list go through the same steps, those left out for the list in which the sheet refuses
a rule. Both have then given out the same handles and give out the same one next. The regions of the
sheet are the rules of the list that are not at-rules and those that are, so that the sheet reads as the
list does with the at-rules moved behind. Every rule in it has the right shape. What it refuses next
depends on nothing else but whether it is attached, and leaves it as it was. -/
theorem regions_filter_list (steps : List SheetStep) :
    let s := Sink.performAll empty steps
    let taken := Sink.withoutRefused empty steps
    let m := Sink.performAll MemorySink.empty taken
    Sink.givenOut empty steps = Sink.givenOut MemorySink.empty taken ∧ s.next = m.next ∧
      s.base = m.held.filter (fun p => !p.2.isAtRule) ∧
      s.atRules = m.held.filter (fun p => p.2.isAtRule) ∧
      (∀ rule ∈ s.rules, ruleFault rule = none) ∧
      s.toCss = String.join ((m.rules.filter (fun rule => !rule.isAtRule) ++
        m.rules.filter (fun rule => rule.isAtRule)).map fun rule => rule.text ++ "\n") ∧
      ∀ rule, (∀ e t, Sink.add s rule = (.error e, t) ∨ Sink.addGlobal s rule = (.error e, t) → t = s) ∧
        ((∃ e t, Sink.add s rule = (.error e, t)) ↔ s.attached = false ∨ ruleFault rule ≠ none) ∧
        ((∃ e t, Sink.addGlobal s rule = (.error e, t)) ↔
          s.attached = false ∨ ruleFault rule ≠ none) := by
  intro s taken m
  obtain ⟨hgiven, hbeside⟩ : Sink.givenOut MemorySink.empty taken = Sink.givenOut empty steps ∧
      Beside s m := Beside.empty.performAll steps
  have hbase : s.base = m.held.filter fun p => !p.2.isAtRule := by
    rw [hbeside.base, HeldRules.ofKind]
    exact List.filter_congr fun p _ => by cases p.2.isAtRule <;> rfl
  have hatRules : s.atRules = m.held.filter fun p => p.2.isAtRule := by
    rw [hbeside.atRules, HeldRules.ofKind]
    exact List.filter_congr fun p _ => by cases p.2.isAtRule <;> rfl
  have hrules : s.rules = m.rules.filter (fun rule => !rule.isAtRule) ++
      m.rules.filter fun rule => rule.isAtRule := by
    rw [rules, hbase, hatRules, MemorySink.rules, HeldRules.rules, HeldRules.rules, HeldRules.rules,
      List.filter_map, List.filter_map]
    rfl
  refine ⟨hgiven.symm, hbeside.next, hbase, hatRules, fun rule hrule => ?_, ?_, fun rule => ?_⟩
  · have hheld : rule ∈ m.rules := by
      rw [hrules] at hrule
      rcases List.mem_append.1 hrule with hrule | hrule
      · exact (List.mem_filter.1 hrule).1
      · exact (List.mem_filter.1 hrule).1
    obtain ⟨p, hp, rfl⟩ := List.mem_map.1 hheld
    exact hbeside.faultless p hp
  · rw [toCss, hrules]
  · exact ⟨fun e t herror => herror.elim add_error_eq add_error_eq, add_refuses_iff s rule,
      add_refuses_iff s rule⟩

/-- Two plain rules around an at-rule, and the first one given up. -/
example :
    let rule : StyleRule := ⟨".a\x7bb:c;\x7d"⟩
    let atRule : StyleRule := ⟨"@media print\x7b.a\x7bb:c;\x7d\x7d"⟩
    let steps := [.request (.add rule), .request (.add atRule), .detach, .request (.add rule),
      .attach, .request (.addGlobal ⟨"\x7d"⟩), .request (.addGlobal rule), .request (.retract ⟨0⟩)]
    (Sink.performAll empty steps).base = [(⟨2⟩, rule)] ∧
      (Sink.performAll empty steps).atRules = [(⟨1⟩, atRule)] ∧
      Sink.givenOut empty steps = [⟨0⟩, ⟨1⟩, ⟨2⟩] := by
  decide +kernel

end SheetSink

end ScopedCss
