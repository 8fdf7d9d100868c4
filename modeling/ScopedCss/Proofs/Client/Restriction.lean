import ScopedCss.Proofs.Client.History
import ScopedCss.Proofs.Registry.Unlogged

/-!
# Histories restricted to one registry

A client may hold registrations of several registries and give each of them to any registry, and the
registries may hold the same classes, and rules under the same handles. `Client.restrict` cuts such a
history down to what concerns one registry: its own insertions, what is done to its sink, and the
releases into it of registrations that it has issued itself. The numbers of registrations are those
among its own then.

A second client goes through the restricted history and is compared with the first one step by step
(`Mirrors`): its registry differs in the log at most, and what the first client still has of the
registry the second one has too, under its own number. The converse fails for registrations that are
wasted, that is, given to a registry that has not issued them.
-/

namespace ScopedCss

/-! ## Restricted histories -/

/-- For every attempt to insert something, the number of the registry at which it was made. -/
structure Origins where
  /-- The attempts to insert elements. -/
  elements : List Nat
  /-- The attempts to insert global rules. -/
  globals : List Nat

namespace Origins

/-- The origins before anything has been done. -/
def empty : Origins := ⟨[], []⟩

/-- Takes an action down, and what has come of it. -/
def record (o : Origins) : ClientAction → ClientOutcome → Origins
  | .insert i _, .inserted .. | .insert i _, .failed _ => { o with elements := o.elements ++ [i] }
  | .insertGlobal i _, .insertedGlobal .. | .insertGlobal i _, .failed _ =>
    { o with globals := o.globals ++ [i] }
  | _, _ => o

/-- The number of attempt `n` among the attempts that were made at registry `k`. -/
def ownNumber (k : Nat) (origins : List Nat) (n : Nat) : Nat := (origins.take n).count k

/-- What an action means for registry `k`, seen by what has come of it. -/
def keep (k : Nat) (o : Origins) : ClientAction → ClientOutcome → Option ClientAction
  | .insert i e, _ => if i = k then some (.insert k e) else none
  | .release i n, .done =>
    if i = k ∧ o.elements[n]? = some k then some (.release k (ownNumber k o.elements n)) else none
  | .insertGlobal i rule, _ => if i = k then some (.insertGlobal k rule) else none
  | .releaseGlobal i n, .done =>
    if i = k ∧ o.globals[n]? = some k then some (.releaseGlobal k (ownNumber k o.globals n))
    else none
  | .operate i op, _ => if i = k then some (.operate k op) else none
  | _, _ => none

end Origins

namespace Client

variable {σ : Type} [Sink σ]

/-- The client after an event. -/
def occur (c : Client σ) : ClientEvent σ → Client σ
  | .action a => (c.step a).2
  | .tamper i change => c.tamper i change

/-- The client after a history of events. -/
def runEvents (c : Client σ) (events : List (ClientEvent σ)) : Client σ := events.foldl occur c

/-- What a history that begins with the client `c` and the origins `o` means for registry `k`. -/
def restrictFrom (k : Nat) (c : Client σ) (o : Origins) :
    List (ClientEvent σ) → List (ClientEvent σ)
  | [] => []
  | .action a :: events =>
    let (outcome, c') := c.step a
    ((o.keep k a outcome).map ClientEvent.action).toList ++
      restrictFrom k c' (o.record a outcome) events
  | .tamper i change :: events =>
    (if i = k then [.tamper k change] else []) ++ restrictFrom k (c.tamper i change) o events

/-- A history restricted to registry `k`. -/
def restrict (c : Client σ) (k : Nat) (events : List (ClientEvent σ)) : List (ClientEvent σ) :=
  restrictFrom k c .empty events

theorem runEvents_append (c : Client σ) (before after : List (ClientEvent σ)) :
    c.runEvents (before ++ after) = (c.runEvents before).runEvents after := List.foldl_append

/-- The ledger plays no part in what happens to the client. -/
theorem audit_fst (c : Client σ) (k : Nat) (events : List (ClientEvent σ)) :
    (c.audit k events).1 = c.runEvents events := by
  have hgen : ∀ l : Ledger, (events.foldl (watch k) (c, l)).1 = c.runEvents events := by
    induction events generalizing c with
    | nil => exact fun l => rfl
    | cons e events ih =>
      intro l
      cases e with
      | action a => exact ih (c.step a).2 _
      | tamper i change => exact ih (c.tamper i change) l
  exact hgen .empty

/-- What happens later does not change what a history means up to some point. -/
theorem restrictFrom_append (k : Nat) (c : Client σ) (o : Origins)
    (before after : List (ClientEvent σ)) :
    ∃ rest, restrictFrom k c o (before ++ after) = restrictFrom k c o before ++ rest := by
  induction before generalizing c o with
  | nil => exact ⟨_, rfl⟩
  | cons e before ih =>
    cases e with
    | action a =>
      obtain ⟨rest, h⟩ := ih (c.step a).2 (o.record a (c.step a).1)
      refine ⟨rest, ?_⟩
      simp only [List.cons_append, restrictFrom, h, List.append_assoc]
    | tamper i change =>
      obtain ⟨rest, h⟩ := ih (c.tamper i change) o
      refine ⟨rest, ?_⟩
      simp only [List.cons_append, restrictFrom, h, List.append_assoc]

end Client

/-! ## Own numbers -/

namespace Origins

variable {k i m n : Nat} {origins : List Nat}

theorem ownNumber_concat (h : n ≤ origins.length) :
    ownNumber k (origins ++ [i]) n = ownNumber k origins n := by
  rw [ownNumber, List.take_append_of_le_length h, ownNumber]

/-- Of two registrations of one registry the earlier one has the smaller number among its own. -/
theorem ownNumber_lt (hm : origins[m]? = some k) (h : m < n) :
    ownNumber k origins m < ownNumber k origins n := by
  have hsucc : ownNumber k origins (m + 1) = ownNumber k origins m + 1 := by
    rw [ownNumber, List.take_add_one, hm, List.count_append, ownNumber]
    simp
  have hle : ownNumber k origins (m + 1) ≤ ownNumber k origins n :=
    (List.take_sublist_take_left h).count_le k
  omega

theorem ownNumber_ne (hm : origins[m]? = some k) (hn : origins[n]? = some k) (h : m ≠ n) :
    ownNumber k origins m ≠ ownNumber k origins n := by
  rcases Nat.lt_or_gt_of_ne h with hlt | hlt
  · exact Nat.ne_of_lt (ownNumber_lt hm hlt)
  · exact Nat.ne_of_gt (ownNumber_lt hn hlt)

end Origins

/-! ## What the client has of one registry -/

open Origins

/-- What stands in a list with one more element stands in the list or is this element. -/
theorem getElem?_concat_cases {α : Type} {l : List α} {x y : α} {n : Nat}
    (h : (l ++ [x])[n]? = some y) : n < l.length ∧ l[n]? = some y ∨ n = l.length ∧ x = y := by
  rw [List.getElem?_append] at h
  split at h
  · next hlt => exact .inl ⟨hlt, h⟩
  · next hge =>
    rw [List.getElem?_singleton] at h
    split at h
    · next hz => exact .inr ⟨by omega, Option.some.inj h⟩
    · cases h

theorem getElem?_set_none_cases {α : Type} {slots : List (Option α)} {m n : Nat} {a : α}
    (h : (slots.set m none)[n]? = some (some a)) : m ≠ n ∧ slots[n]? = some (some a) := by
  rw [List.getElem?_set] at h
  split at h
  · split at h <;> cases h
  · next hne => exact ⟨hne, h⟩

/-- A client that works with registry `k` alone has, of the registrations of this registry, those that
the client of the longer history still has, under their own numbers. -/
structure Mirrored {α : Type} (owner : α → Nat) (k id : Nat) (origins : List Nat)
    (slots own : List (Option α)) : Prop where
  length : origins.length = slots.length
  own_length : origins.count k = own.length
  issued : ∀ (n : Nat) (a : α), slots[n]? = some (some a) → (owner a = id ↔ origins[n]? = some k)
  held : ∀ (n : Nat) (a : α), slots[n]? = some (some a) → origins[n]? = some k →
    own[ownNumber k origins n]? = some (some a)

namespace Mirrored

variable {α : Type} {owner : α → Nat} {k id n : Nat} {origins : List Nat}
  {slots own : List (Option α)}

theorem nil : Mirrored owner k id [] [] [] := by
  refine ⟨rfl, rfl, fun n a h => ?_, fun n a h => ?_⟩
  · cases h
  · cases h

/-- An attempt at the registry. -/
theorem append_own (h : Mirrored owner k id origins slots own) {x : Option α}
    (hx : ∀ a, x = some a → owner a = id) :
    Mirrored owner k id (origins ++ [k]) (slots ++ [x]) (own ++ [x]) := by
  have hlen := h.length
  have hown := h.own_length
  refine ⟨by simp [hlen], by simp [hown], fun n a hn => ?_, fun n a hn hk => ?_⟩
  · rcases getElem?_concat_cases hn with ⟨hlt, hn⟩ | ⟨rfl, rfl⟩
    · rw [List.getElem?_append_left (hlen ▸ hlt)]
      exact h.issued n a hn
    · rw [← hlen, List.getElem?_concat_length]
      exact iff_of_true (hx a rfl) rfl
  · rcases getElem?_concat_cases hn with ⟨hlt, hn⟩ | ⟨rfl, rfl⟩
    · rw [List.getElem?_append_left (hlen ▸ hlt)] at hk
      have hheld := h.held n a hn hk
      rw [ownNumber_concat (by omega),
        List.getElem?_append_left (List.getElem?_eq_some_iff.1 hheld).1]
      exact hheld
    · rw [ownNumber_concat (by omega), ← hlen, ownNumber, List.take_length, hown]
      exact List.getElem?_concat_length

/-- An attempt at another registry. -/
theorem append_other (h : Mirrored owner k id origins slots own) {i : Nat} (hi : i ≠ k)
    {x : Option α} (hx : ∀ a, x = some a → owner a ≠ id) :
    Mirrored owner k id (origins ++ [i]) (slots ++ [x]) own := by
  have hlen := h.length
  refine ⟨by simp [hlen], by simp [hi, h.own_length], fun n a hn => ?_, fun n a hn hk => ?_⟩
  · rcases getElem?_concat_cases hn with ⟨hlt, hn⟩ | ⟨rfl, rfl⟩
    · rw [List.getElem?_append_left (hlen ▸ hlt)]
      exact h.issued n a hn
    · rw [← hlen, List.getElem?_concat_length]
      exact iff_of_false (hx a rfl) fun e => hi (Option.some.inj e)
  · rcases getElem?_concat_cases hn with ⟨hlt, hn⟩ | ⟨rfl, rfl⟩
    · rw [List.getElem?_append_left (hlen ▸ hlt)] at hk
      rw [ownNumber_concat (by omega)]
      exact h.held n a hn hk
    · rw [← hlen, List.getElem?_concat_length] at hk
      exact absurd (Option.some.inj hk) hi

/-- A registration is given back to another registry, or is one of another registry. -/
theorem waste (h : Mirrored owner k id origins slots own) (n : Nat) :
    Mirrored owner k id origins (slots.set n none) own := by
  refine ⟨by simp [h.length], h.own_length, fun m a hm => ?_, fun m a hm => ?_⟩
  · exact h.issued m a (getElem?_set_none_cases hm).2
  · exact h.held m a (getElem?_set_none_cases hm).2

/-- A registration is given back to the registry that has issued it. -/
theorem spend (h : Mirrored owner k id origins slots own) (hn : origins[n]? = some k) :
    Mirrored owner k id origins (slots.set n none) (own.set (ownNumber k origins n) none) := by
  have hw := h.waste n
  refine ⟨hw.length, by simp [h.own_length], hw.issued, fun m a hm hk => ?_⟩
  have hne := ownNumber_ne hn hk (getElem?_set_none_cases hm).1
  rw [List.getElem?_set_ne hne]
  exact hw.held m a hm hk

end Mirrored

/-! ## Steps -/

namespace Client

open Registry

variable {σ : Type} [Sink σ]

section Steps

variable {c : Client σ} {i n : Nat} {s : Registry σ}

/-- What an insertion does to the hands of the client: the registry is replaced, and there is one
more slot, empty if the insertion has failed. Where the registration came from is noted either way.
-/
theorem step_insert {e : StyleElement} {answer : Except RegistryError Registration}
    {s' : Registry σ} (hs : c.registries[i]? = some s) (h : s.insert e = (answer, s')) :
    (c.step (.insert i e)).2 =
        { c.put i s' with registrations := c.registrations ++ [answer.toOption] } ∧
      (∀ o : Origins, o.record (.insert i e) (c.step (.insert i e)).1 =
        { o with elements := o.elements ++ [i] }) ∧
      ∀ reg, answer.toOption = some reg → reg.registry = s.id := by
  simp only [step, hs, h]
  rcases answer with err | reg
  · refine ⟨rfl, fun _ => rfl, fun reg hreg => ?_⟩
    cases hreg
  · refine ⟨rfl, fun _ => rfl, fun reg' hreg => ?_⟩
    cases hreg
    rw [(insert_ok h).1]

/-- The same for a rule that belongs to no class. -/
theorem step_insertGlobal {rule : StyleRule} {answer : Except RegistryError GlobalRegistration}
    {s' : Registry σ} (hs : c.registries[i]? = some s) (h : s.insertGlobal rule = (answer, s')) :
    (c.step (.insertGlobal i rule)).2 =
        { c.put i s' with globals := c.globals ++ [answer.toOption] } ∧
      (∀ o : Origins, o.record (.insertGlobal i rule) (c.step (.insertGlobal i rule)).1 =
        { o with globals := o.globals ++ [i] }) ∧
      ∀ reg, answer.toOption = some reg → reg.registry = s.id := by
  simp only [step, hs, h]
  rcases answer with err | reg
  · refine ⟨rfl, fun _ => rfl, fun reg hreg => ?_⟩
    cases hreg
  · refine ⟨rfl, fun _ => rfl, fun reg' hreg => ?_⟩
    cases hreg
    exact (insertGlobal_ok h).1

theorem step_release {reg : Registration} (hs : c.registries[i]? = some s)
    (hn : c.registrations[n]? = some (some reg)) :
    c.step (.release i n) = (.done,
      { c.put i (s.release reg) with registrations := c.registrations.set n none }) := by
  simp only [step, hs, hn]

theorem step_releaseGlobal {reg : GlobalRegistration} (hs : c.registries[i]? = some s)
    (hn : c.globals[n]? = some (some reg)) :
    c.step (.releaseGlobal i n) = (.done,
      { c.put i (s.releaseGlobal reg) with globals := c.globals.set n none }) := by
  simp only [step, hs, hn]

/-- Something is given back, or the step is without effect. -/
theorem step_release_cases (c : Client σ) (i n : Nat) :
    (∃ s reg, c.registries[i]? = some s ∧ c.registrations[n]? = some (some reg)) ∨
      c.step (.release i n) = (.spent, c) := by
  rcases hs : c.registries[i]? with _ | s
  · exact .inr (by simp only [step, hs])
  · rcases hn : c.registrations[n]? with _ | _ | reg
    · exact .inr (by simp only [step, hs, hn])
    · exact .inr (by simp only [step, hs, hn])
    · exact .inl ⟨s, reg, rfl, rfl⟩

/-- A release of a global registration is spent unless both the registry and the registration are
there. -/
theorem step_releaseGlobal_cases (c : Client σ) (i n : Nat) :
    (∃ s reg, c.registries[i]? = some s ∧ c.globals[n]? = some (some reg)) ∨
      c.step (.releaseGlobal i n) = (.spent, c) := by
  rcases hs : c.registries[i]? with _ | s
  · exact .inr (by simp only [step, hs])
  · rcases hn : c.globals[n]? with _ | _ | reg
    · exact .inr (by simp only [step, hs, hn])
    · exact .inr (by simp only [step, hs, hn])
    · exact .inl ⟨s, reg, rfl, rfl⟩

end Steps

/-! ## The two clients -/

/-- The client `d` works with registry `k` alone, and as `c` does: the registry `r` of `c` and the
registry `q` of `d` differ in their logs at most. -/
structure Mirrors (k : Nat) (o : Origins) (c d : Client σ) (r q : Registry σ) : Prop where
  registry : c.registries[k]? = some r
  alone : d.registries[k]? = some q
  upToLog : UpToLog r q
  elements : Mirrored Registration.registry k r.id o.elements c.registrations d.registrations
  globals : Mirrored GlobalRegistration.registry k r.id o.globals c.globals d.globals

/-- What the second client does when the first one does `a`. -/
def follow (k : Nat) (o : Origins) (c d : Client σ) (a : ClientAction) : Client σ :=
  d.run (o.keep k a (c.step a).1).toList

/-- The clients mirror each other after the first one has done `a`. -/
def MirrorAfter (k : Nat) (o : Origins) (c d : Client σ) (a : ClientAction) : Prop :=
  ∃ r q, Mirrors k (o.record a (c.step a).1) (c.step a).2 (follow k o c d a) r q

namespace Mirrors

variable {k : Nat} {o : Origins} {c d : Client σ} {r q : Registry σ}

theorem follow_of_none {a : ClientAction} (h : o.keep k a (c.step a).1 = none) :
    follow k o c d a = d := by
  rw [follow, h]
  rfl

theorem follow_of_some {a a' : ClientAction} (h : o.keep k a (c.step a).1 = some a') :
    follow k o c d a = (d.step a').2 := by
  rw [follow, h]
  rfl

omit [Sink σ] in
/-- The registries at `k` are replaced. -/
theorem getElem?_put (h : Mirrors k o c d r q) (r' q' : Registry σ) :
    (c.registries.set k r')[k]? = some r' ∧ (d.registries.set k q')[k]? = some q' :=
  ⟨List.getElem?_set_self (List.getElem?_eq_some_iff.1 h.registry).1,
    List.getElem?_set_self (List.getElem?_eq_some_iff.1 h.alone).1⟩

/-- Nothing is done, and nothing is kept of it. -/
theorem idle (h : Mirrors k o c d r q) {a : ClientAction} {outcome : ClientOutcome}
    (hstep : c.step a = (outcome, c)) (hkeep : o.keep k a outcome = none)
    (hrecord : o.record a outcome = o) : MirrorAfter k o c d a := by
  have hkeep' : o.keep k a (c.step a).1 = none := by rw [hstep, hkeep]
  rw [MirrorAfter, follow_of_none hkeep', hstep, hrecord]
  exact ⟨r, q, h⟩

/-! ### Insertions -/

/-- An insertion into the registry itself is followed by the second client. -/
theorem insert_own (h : Mirrors k o c d r q) (e : StyleElement) :
    MirrorAfter k o c d (.insert k e) := by
  obtain ⟨answer, r', q', hr, hq, h'⟩ := h.upToLog.insert e
  have hid := (continues_insert r e).id
  rw [hr] at hid
  obtain ⟨hstep, horigins, hissued⟩ := step_insert h.registry hr
  obtain ⟨hfollow, -⟩ := step_insert h.alone hq
  obtain ⟨hcr, hdr⟩ := h.getElem?_put r' q'
  have hkeep : o.keep k (.insert k e) (c.step (.insert k e)).1 = some (.insert k e) := if_pos rfl
  refine ⟨r', q', ?_⟩
  rw [follow_of_some hkeep, hstep, hfollow, horigins]
  refine ⟨hcr, hdr, h', ?_, ?_⟩
  · rw [hid]
    exact h.elements.append_own hissued
  · rw [hid]
    exact h.globals

/-- Any insertion: one into another registry adds a slot that is not its own, and the second client
stays where it is. -/
theorem insert (h : Mirrors k o c d r q) (hc : c.Distinct) (i : Nat) (e : StyleElement) :
    MirrorAfter k o c d (.insert i e) := by
  by_cases hi : i = k
  · subst hi
    exact h.insert_own e
  · have hkeep : ∀ outcome, o.keep k (.insert i e) outcome = none := fun _ => if_neg hi
    rcases hs : c.registries[i]? with _ | s
    · have hstep : c.step (.insert i e) = (.done, c) := by simp only [step, hs]
      exact h.idle hstep (hkeep _) rfl
    · rcases hanswer : s.insert e with ⟨answer, s'⟩
      obtain ⟨hstep, horigins, hissued⟩ := step_insert hs hanswer
      rw [MirrorAfter, follow_of_none (hkeep _), hstep, horigins]
      refine ⟨r, q, (List.getElem?_set_ne hi).trans h.registry, h.alone, h.upToLog, ?_, h.globals⟩
      refine h.elements.append_other hi fun reg hreg => ?_
      rw [hissued reg hreg]
      exact hc.id_ne hs h.registry hi

/-- A global rule that is inserted into the registry itself is inserted by the second client, too.
-/
theorem insertGlobal_own (h : Mirrors k o c d r q) (rule : StyleRule) :
    MirrorAfter k o c d (.insertGlobal k rule) := by
  obtain ⟨answer, r', q', hr, hq, h'⟩ := h.upToLog.insertGlobal rule
  have hid := (continues_insertGlobal r rule).id
  rw [hr] at hid
  obtain ⟨hstep, horigins, hissued⟩ := step_insertGlobal h.registry hr
  obtain ⟨hfollow, -⟩ := step_insertGlobal h.alone hq
  obtain ⟨hcr, hdr⟩ := h.getElem?_put r' q'
  have hkeep : o.keep k (.insertGlobal k rule) (c.step (.insertGlobal k rule)).1 =
      some (.insertGlobal k rule) := if_pos rfl
  refine ⟨r', q', ?_⟩
  rw [follow_of_some hkeep, hstep, hfollow, horigins]
  refine ⟨hcr, hdr, h', ?_, ?_⟩
  · rw [hid]
    exact h.elements
  · rw [hid]
    exact h.globals.append_own hissued

/-- Any insertion of a global rule, by whether it is one into the registry itself. -/
theorem insertGlobal (h : Mirrors k o c d r q) (hc : c.Distinct) (i : Nat) (rule : StyleRule) :
    MirrorAfter k o c d (.insertGlobal i rule) := by
  by_cases hi : i = k
  · subst hi
    exact h.insertGlobal_own rule
  · have hkeep : ∀ outcome, o.keep k (.insertGlobal i rule) outcome = none := fun _ => if_neg hi
    rcases hs : c.registries[i]? with _ | s
    · have hstep : c.step (.insertGlobal i rule) = (.done, c) := by simp only [step, hs]
      exact h.idle hstep (hkeep _) rfl
    · rcases hanswer : s.insertGlobal rule with ⟨answer, s'⟩
      obtain ⟨hstep, horigins, hissued⟩ := step_insertGlobal hs hanswer
      rw [MirrorAfter, follow_of_none (hkeep _), hstep, horigins]
      refine ⟨r, q, (List.getElem?_set_ne hi).trans h.registry, h.alone, h.upToLog, h.elements, ?_⟩
      refine h.globals.append_other hi fun reg hreg => ?_
      rw [hissued reg hreg]
      exact hc.id_ne hs h.registry hi

/-! ### Releases -/

section Releases

variable {s : Registry σ} {i n : Nat}

/-- The registration is its own, and the second client has it under its own number. -/
theorem release_own (h : Mirrors k o c d r q) {reg : Registration}
    (hn : c.registrations[n]? = some (some reg)) (horigin : o.elements[n]? = some k) :
    MirrorAfter k o c d (.release k n) := by
  have hstep := step_release h.registry hn
  have hkeep : o.keep k (.release k n) (c.step (.release k n)).1 =
      some (.release k (ownNumber k o.elements n)) := by
    rw [hstep]
    exact if_pos ⟨rfl, horigin⟩
  have hheld := h.elements.held n reg hn horigin
  have hid := (continues_release r reg).id
  obtain ⟨hcr, hdr⟩ := h.getElem?_put (r.release reg) (q.release reg)
  refine ⟨r.release reg, q.release reg, ?_⟩
  rw [follow_of_some hkeep, hstep, step_release h.alone hheld]
  refine ⟨hcr, hdr, h.upToLog.release reg, ?_, ?_⟩
  · rw [hid]
    exact h.elements.spend horigin
  · rw [hid]
    exact h.globals

/-- The registry is another one, or it ignores the registration, which is one of another registry. -/
theorem release_other (h : Mirrors k o c d r q) {reg : Registration}
    (hs : c.registries[i]? = some s) (hn : c.registrations[n]? = some (some reg))
    (hother : ¬ (i = k ∧ o.elements[n]? = some k)) : MirrorAfter k o c d (.release i n) := by
  have hstep := step_release hs hn
  have hkeep : o.keep k (.release i n) (c.step (.release i n)).1 = none := by
    rw [hstep]
    exact if_neg hother
  rw [MirrorAfter, follow_of_none hkeep, hstep]
  by_cases hi : i = k
  · subst hi
    cases hs.symm.trans h.registry
    have hforeign : reg.registry ≠ r.id := fun e =>
      hother ⟨rfl, (h.elements.issued n reg hn).1 e⟩
    have hlog := (upToLog_release_of_ne hforeign).symm.trans h.upToLog
    have hid := (continues_release r reg).id
    refine ⟨r.release reg, q, (h.getElem?_put _ q).1, h.alone, hlog, ?_, ?_⟩
    · rw [hid]
      exact h.elements.waste n
    · rw [hid]
      exact h.globals
  · exact ⟨r, q, (List.getElem?_set_ne hi).trans h.registry, h.alone, h.upToLog,
      h.elements.waste n, h.globals⟩

theorem release (h : Mirrors k o c d r q) (i n : Nat) : MirrorAfter k o c d (.release i n) := by
  rcases step_release_cases c i n with ⟨s, reg, hs, hn⟩ | hspent
  · by_cases hown : i = k ∧ o.elements[n]? = some k
    · obtain ⟨rfl, horigin⟩ := hown
      exact h.release_own hn horigin
    · exact h.release_other hs hn hown
  · exact h.idle hspent rfl rfl

/-- A global registration that comes back to the registry that has issued it is released by the
second client under its own number. -/
theorem releaseGlobal_own (h : Mirrors k o c d r q) {reg : GlobalRegistration}
    (hn : c.globals[n]? = some (some reg)) (horigin : o.globals[n]? = some k) :
    MirrorAfter k o c d (.releaseGlobal k n) := by
  have hstep := step_releaseGlobal h.registry hn
  have hkeep : o.keep k (.releaseGlobal k n) (c.step (.releaseGlobal k n)).1 =
      some (.releaseGlobal k (ownNumber k o.globals n)) := by
    rw [hstep]
    exact if_pos ⟨rfl, horigin⟩
  have hheld := h.globals.held n reg hn horigin
  have hid := (continues_releaseGlobal r reg).id
  obtain ⟨hcr, hdr⟩ := h.getElem?_put (r.releaseGlobal reg) (q.releaseGlobal reg)
  refine ⟨r.releaseGlobal reg, q.releaseGlobal reg, ?_⟩
  rw [follow_of_some hkeep, hstep, step_releaseGlobal h.alone hheld]
  refine ⟨hcr, hdr, h.upToLog.releaseGlobal reg, ?_, ?_⟩
  · rw [hid]
    exact h.elements
  · rw [hid]
    exact h.globals.spend horigin

/-- Any other release of a global registration: the registry ignores it or is not asked at all, and
at most a registration is wasted. -/
theorem releaseGlobal_other (h : Mirrors k o c d r q) {reg : GlobalRegistration}
    (hs : c.registries[i]? = some s) (hn : c.globals[n]? = some (some reg))
    (hother : ¬ (i = k ∧ o.globals[n]? = some k)) : MirrorAfter k o c d (.releaseGlobal i n) := by
  have hstep := step_releaseGlobal hs hn
  have hkeep : o.keep k (.releaseGlobal i n) (c.step (.releaseGlobal i n)).1 = none := by
    rw [hstep]
    exact if_neg hother
  rw [MirrorAfter, follow_of_none hkeep, hstep]
  by_cases hi : i = k
  · subst hi
    cases hs.symm.trans h.registry
    have hforeign : reg.registry ≠ r.id := fun e =>
      hother ⟨rfl, (h.globals.issued n reg hn).1 e⟩
    have hlog := (upToLog_releaseGlobal_of_ne hforeign).symm.trans h.upToLog
    have hid := (continues_releaseGlobal r reg).id
    refine ⟨r.releaseGlobal reg, q, (h.getElem?_put _ q).1, h.alone, hlog, ?_, ?_⟩
    · rw [hid]
      exact h.elements
    · rw [hid]
      exact h.globals.waste n
  · exact ⟨r, q, (List.getElem?_set_ne hi).trans h.registry, h.alone, h.upToLog, h.elements,
      h.globals.waste n⟩

/-- Any release of a global registration, by which of the three it is. -/
theorem releaseGlobal (h : Mirrors k o c d r q) (i n : Nat) :
    MirrorAfter k o c d (.releaseGlobal i n) := by
  rcases step_releaseGlobal_cases c i n with ⟨s, reg, hs, hn⟩ | hspent
  · by_cases hown : i = k ∧ o.globals[n]? = some k
    · obtain ⟨rfl, horigin⟩ := hown
      exact h.releaseGlobal_own hn horigin
    · exact h.releaseGlobal_other hs hn hown
  · exact h.idle hspent rfl rfl

end Releases

/-! ### What is done to a sink -/

/-- What is done to the sink of the registry is done by the second client, and what is done to
another one is not. -/
theorem operate (h : Mirrors k o c d r q) (i : Nat) (op : SinkOperation) :
    MirrorAfter k o c d (.operate i op) := by
  by_cases hi : i = k
  · subst hi
    have hkeep : o.keep i (.operate i op) (c.step (.operate i op)).1 = some (.operate i op) :=
      if_pos rfl
    obtain ⟨hcr, hdr⟩ := h.getElem?_put (r.operate op) (q.operate op)
    rw [MirrorAfter, follow_of_some hkeep]
    simp only [step, h.registry, h.alone]
    exact ⟨_, _, hcr, hdr, h.upToLog.operate op, h.elements, h.globals⟩
  · have hkeep : ∀ outcome, o.keep k (.operate i op) outcome = none := fun _ => if_neg hi
    rcases hs : c.registries[i]? with _ | s
    · have hstep : c.step (.operate i op) = (.done, c) := by simp only [step, hs]
      exact h.idle hstep (hkeep _) rfl
    · rw [MirrorAfter, follow_of_none (hkeep _)]
      simp only [step, hs]
      exact ⟨r, q, (List.getElem?_set_ne hi).trans h.registry, h.alone, h.upToLog, h.elements,
        h.globals⟩

omit [Sink σ] in
/-- The sink of a registry is changed past the registry. -/
theorem tamper (h : Mirrors k o c d r q) (i : Nat) (change : σ → σ) :
    ∃ r' q', Mirrors k o (c.tamper i change) (if i = k then d.tamper k change else d) r' q' := by
  by_cases hi : i = k
  · subst hi
    have hsame : UpToLog { r with sink := change r.sink } { q with sink := change q.sink } :=
      ⟨h.upToLog.id, h.upToLog.config, h.upToLog.entries, congrArg change h.upToLog.sink⟩
    obtain ⟨hcr, hdr⟩ := h.getElem?_put { r with sink := change r.sink }
      { q with sink := change q.sink }
    rw [if_pos rfl]
    simp only [Client.tamper, h.registry, h.alone]
    exact ⟨_, _, hcr, hdr, hsame, h.elements, h.globals⟩
  · rw [if_neg hi]
    rcases hs : c.registries[i]? with _ | s
    · simp only [Client.tamper, hs]
      exact ⟨r, q, h⟩
    · simp only [Client.tamper, hs]
      exact ⟨r, q, (List.getElem?_set_ne hi).trans h.registry, h.alone, h.upToLog, h.elements,
        h.globals⟩

/-! ### Histories -/

/-- Whatever the first client does, the second one can follow. -/
theorem step (h : Mirrors k o c d r q) (hc : c.Distinct) (a : ClientAction) :
    MirrorAfter k o c d a := by
  cases a with
  | insert i e => exact h.insert hc i e
  | release i n => exact h.release i n
  | insertGlobal i rule => exact h.insertGlobal hc i rule
  | releaseGlobal i n => exact h.releaseGlobal i n
  | operate i op => exact h.operate i op

/-- The second client follows the first one through the restricted history. -/
theorem run (h : Mirrors k o c d r q) (hc : c.Distinct) (events : List (ClientEvent σ)) :
    ∃ o' r' q', Mirrors k o' (c.runEvents events) (d.runEvents (restrictFrom k c o events)) r' q' := by
  induction events generalizing c d o r q with
  | nil => exact ⟨o, r, q, h⟩
  | cons e events ih =>
    cases e with
    | action a =>
      obtain ⟨r', q', h'⟩ := h.step hc a
      have hc' := (step_turn hc h.registry a).1
      have hfollow : d.runEvents ((o.keep k a (c.step a).1).map ClientEvent.action).toList =
          follow k o c d a := by
        rw [follow]
        cases o.keep k a (c.step a).1 <;> rfl
      rw [restrictFrom]
      simp only
      rw [runEvents_append, hfollow]
      exact ih h' hc'
    | tamper i change =>
      obtain ⟨r', q', h'⟩ := h.tamper i change
      have hc' := (tamper_registry hc h.registry i change).1
      have hfollow : d.runEvents (if i = k then [.tamper k change] else []) =
          if i = k then d.tamper k change else d := by
        by_cases hi : i = k
        · rw [if_pos hi, if_pos hi]
          rfl
        · rw [if_neg hi, if_neg hi]
          rfl
      rw [restrictFrom, runEvents_append, hfollow]
      exact ih h' hc'

end Mirrors

/-- What the registries hold, their logs aside. -/
def contents (c : Client σ) : List (OrderedMap ClassName RegistryEntry × σ) :=
  c.registries.map fun r => (r.entries, r.sink)

theorem length_runEvents (c : Client σ) (events : List (ClientEvent σ)) :
    (c.runEvents events).registries.length = c.registries.length := by
  rw [← audit_fst c 0]
  exact length_foldl_watch 0 (c, .empty) events

/-- Restricting a history to a registry changes neither the entries nor the sink that it ends with.
-/
theorem contents_restrict {c : Client σ} (hc : c.Fresh) (k : Nat) (events : List (ClientEvent σ)) :
    (c.runEvents events).contents[k]? = (c.runEvents (c.restrict k events)).contents[k]? := by
  rcases hr : c.registries[k]? with _ | r
  · have hout := List.getElem?_eq_none_iff.1 hr
    have hnone : ∀ events, (c.runEvents events).contents[k]? = none := by
      intro events
      refine List.getElem?_eq_none_iff.2 ?_
      rw [contents, List.length_map, length_runEvents]
      exact hout
    rw [hnone, hnone]
  · have hstart : Mirrors k .empty c c r r := by
      refine ⟨hr, hr, .refl r, ?_, ?_⟩
      · rw [hc.registrations_nil]
        exact .nil
      · rw [hc.globals_nil]
        exact .nil
    obtain ⟨o, r', q', h⟩ := hstart.run hc.ids_nodup events
    rw [contents, contents, List.getElem?_map, List.getElem?_map, h.registry, restrict, h.alone,
      Option.map_some, Option.map_some, h.upToLog.entries, h.upToLog.sink]

end Client

end ScopedCss
