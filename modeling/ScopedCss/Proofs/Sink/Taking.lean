import ScopedCss.Proofs.Sink.Lawful

/-!
# Taking rules and giving them up

The numbers of the rules in a sink stay in order: no two rules share one, and none is ahead of the
next number to be given out. So giving up the rules that a sink has taken, in whatever order, leads
back to the sink as it was before, up to the numbers that are used up.
-/

namespace ScopedCss

theorem Sink.retractAll_append {σ : Type} [Sink σ] (s : σ) (l l' : List Handle) :
    retractAll s (l ++ l') = retractAll (retractAll s l) l' := List.foldl_append

namespace LawfulSink

variable {σ : Type} [Sink σ] [LawfulSink σ]

/-- The numbers of the held rules are distinct, and all of them have been given out before. -/
structure WellNumbered (s : σ) : Prop where
  nodup : ((held s).map Prod.fst).Nodup
  lt_next : ∀ p ∈ held s, p.1.id < next s

/-- A sink that holds nothing is in order. -/
theorem wellNumbered_of_held_nil {s : σ} (h : held s = []) : WellNumbered s :=
  ⟨by simp [h], by simp [h]⟩

namespace WellNumbered

variable {s t : σ} {rule : StyleRule} {h : Handle}

/-- A new handle is not in use. -/
theorem ne_handle (hs : WellNumbered s) (he : Sink.add s rule = (.ok h, t)) :
    ∀ p ∈ held s, p.1 ≠ h := by
  intro p hp e
  have hlt := hs.lt_next p hp
  have hid := (add_ok he).1
  rw [e, hid] at hlt
  exact lt_irrefl _ hlt

/-- The rules held after one more is taken. -/
theorem held_add (he : Sink.add s rule = (.ok h, t)) : (held t).Perm ((h, rule) :: held s) := by
  obtain ⟨-, -, before, after, hs', ht⟩ := add_ok he
  rw [hs', ht]
  exact List.perm_middle

/-- The numbers stay in order when a rule is taken, since it has the next number. -/
theorem add_ok (hs : WellNumbered s) (he : Sink.add s rule = (.ok h, t)) : WellNumbered t := by
  obtain ⟨hid, hnext, -⟩ := LawfulSink.add_ok he
  have hp := held_add he
  refine ⟨?_, fun p hm => ?_⟩
  · rw [(hp.map Prod.fst).nodup_iff]
    refine List.nodup_cons.2 ⟨fun hm => ?_, hs.nodup⟩
    obtain ⟨p, hp, e⟩ := List.mem_map.1 hm
    exact hs.ne_handle he p hp e
  · rw [hnext]
    rcases List.mem_cons.1 (hp.subset hm) with rfl | hm
    · exact hid ▸ Nat.lt_succ_self _
    · exact Nat.lt_succ_of_lt (hs.lt_next p hm)

theorem add (hs : WellNumbered s) (rule : StyleRule) : WellNumbered (Sink.add s rule).2 := by
  rcases he : Sink.add s rule with ⟨_ | h, t⟩
  · exact (add_error he).symm ▸ hs
  · exact hs.add_ok he

theorem addGlobal (hs : WellNumbered s) (rule : StyleRule) :
    WellNumbered (Sink.addGlobal s rule).2 := addGlobal_eq s rule ▸ hs.add rule

theorem retract (hs : WellNumbered s) (h : Handle) : WellNumbered (Sink.retract s h) := by
  have hsub := HeldRules.sublist_retract (held s) h
  rw [← held_retract] at hsub
  refine ⟨hs.nodup.sublist (hsub.map Prod.fst), fun p hp => ?_⟩
  rw [next_retract]
  exact hs.lt_next p (hsub.subset hp)

theorem retractAll (hs : WellNumbered s) (handles : List Handle) :
    WellNumbered (Sink.retractAll s handles) := by
  induction handles generalizing s with
  | nil => exact hs
  | cons h handles ih => exact ih (hs.retract h)

theorem operate (hs : WellNumbered s) (op : SinkOperation) : WellNumbered (Sink.operate op s) := by
  rcases held_operate op s with h | ⟨-, h⟩
  · refine ⟨h ▸ hs.nodup, fun p hp => ?_⟩
    rw [next_operate]
    exact hs.lt_next p (h ▸ hp)
  · exact wellNumbered_of_held_nil h

theorem withNext (hs : WellNumbered s) {n : Nat} (hn : next s ≤ n) :
    WellNumbered (LawfulSink.withNext s n) := by
  refine ⟨by rw [held_withNext]; exact hs.nodup, fun p hp => ?_⟩
  rw [held_withNext] at hp
  rw [next_withNext]
  exact Nat.lt_of_lt_of_le (hs.lt_next p hp) hn

end WellNumbered

/-! ## Giving up several rules -/

theorem next_retractAll (s : σ) (handles : List Handle) :
    next (Sink.retractAll s handles) = next s := by
  induction handles generalizing s with
  | nil => rfl
  | cons h handles ih => exact (ih (Sink.retract s h)).trans (next_retract s h)

/-- The next number to be given out plays no part in giving rules up. -/
theorem retractAll_withNext (s : σ) (n : Nat) (handles : List Handle) :
    Sink.retractAll (withNext s n) handles = withNext (Sink.retractAll s handles) n := by
  induction handles generalizing s with
  | nil => rfl
  | cons h handles ih =>
    show Sink.retractAll (Sink.retract (withNext s n) h) handles = _
    rw [retract_withNext]
    exact ih (Sink.retract s h)

/-- Giving up some of the rules held leaves the others. -/
theorem WellNumbered.perm_retractAll {s : σ} (hs : WellNumbered s) {ps rest : HeldRules}
    (h : (held s).Perm (ps ++ rest)) :
    (held (Sink.retractAll s (ps.map Prod.fst))).Perm rest := by
  induction ps generalizing s with
  | nil => exact h
  | cons p ps ih =>
    refine ih (hs.retract p.1) ?_
    rw [held_retract]
    exact HeldRules.perm_retract hs.nodup h

/-- The order in which rules are given up does not matter. -/
theorem retractAll_perm {l l' : List Handle} (h : l.Perm l') (s : σ) :
    Sink.retractAll s l = Sink.retractAll s l' :=
  h.foldl_eq' (fun _ _ _ _ s => retract_comm s _ _) s

theorem retractAll_comm (s : σ) (l l' : List Handle) :
    Sink.retractAll (Sink.retractAll s l) l' = Sink.retractAll (Sink.retractAll s l') l := by
  rw [← Sink.retractAll_append, ← Sink.retractAll_append]
  exact retractAll_perm List.perm_append_comm s

/-! ## Taking several rules -/

/-- The sink takes rules, one after the other, and is another sink then. -/
inductive Took : σ → HeldRules → σ → Prop where
  /-- Nothing is taken. -/
  | nil (s : σ) : Took s [] s
  /-- A rule is taken, and then others. -/
  | cons {s t u : σ} {rule : StyleRule} {h : Handle} {ps : HeldRules}
      (head : Sink.add s rule = (.ok h, t)) (tail : Took t ps u) : Took s ((h, rule) :: ps) u

namespace Took

variable {s t : σ} {ps : HeldRules}

theorem wellNumbered (h : Took s ps t) (hs : WellNumbered s) : WellNumbered t := by
  induction h with
  | nil s => exact hs
  | cons head _ ih => exact ih (hs.add_ok head)

theorem next_le (h : Took s ps t) : next s ≤ next t := by
  induction h with
  | nil s => exact le_rfl
  | cons head _ ih =>
    have hn := (add_ok head).2.1
    omega

/-- What is taken gets numbers that have not been given out before. -/
theorem id_bounds (h : Took s ps t) : ∀ p ∈ ps, next s ≤ p.1.id ∧ p.1.id < next t := by
  induction h with
  | nil s =>
    intro p hp
    cases hp
  | @cons s t u rule h ps head tail ih =>
    obtain ⟨hid, hnext, -⟩ := add_ok head
    have hrest := tail.next_le
    intro p hp
    rcases List.mem_cons.1 hp with rfl | hp
    · show next s ≤ h.id ∧ h.id < next u
      omega
    · obtain ⟨hlow, hhigh⟩ := ih p hp
      exact ⟨by omega, hhigh⟩

/-- What is held afterwards is what was held before and what was taken. -/
theorem held_perm (h : Took s ps t) : (held t).Perm (ps ++ held s) := by
  induction h with
  | nil s => exact List.Perm.refl _
  | @cons s t u rule h ps head _ ih =>
    have hp : (ps ++ held t).Perm (ps ++ ((h, rule) :: held s)) :=
      (WellNumbered.held_add head).append_left ps
    exact ih.trans (hp.trans List.perm_middle)

/-- Giving up all that was taken leads back, up to the numbers that are used up. -/
theorem retractAll (h : Took s ps t) (hs : WellNumbered s) :
    Sink.retractAll t (ps.map Prod.fst) = withNext s (next t) := by
  induction h with
  | nil s => exact (withNext_next s).symm
  | @cons s t u rule h ps head tail ih =>
    -- The rules are given up in the order in which they came, but it is the last one that has to
    -- go first for the induction.
    calc Sink.retractAll u (h :: ps.map Prod.fst)
        = Sink.retractAll u (ps.map Prod.fst ++ [h]) :=
          retractAll_perm (List.perm_append_singleton h _).symm u
      _ = Sink.retract (Sink.retractAll u (ps.map Prod.fst)) h := Sink.retractAll_append u _ [h]
      _ = Sink.retract (withNext t (next u)) h := by rw [ih (hs.add_ok head)]
      _ = withNext (Sink.retract t h) (next u) := retract_withNext t (next u) h
      _ = withNext (withNext s (next t)) (next u) := by rw [retract_add head (hs.ne_handle head)]
      _ = withNext s (next u) := withNext_withNext s _ _

end Took

end LawfulSink

end ScopedCss
