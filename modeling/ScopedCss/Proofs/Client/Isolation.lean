import ScopedCss.Proofs.Client.Counts
import ScopedCss.Proofs.Client.Restriction

/-!
# Registries do not interfere

Each registry of a client is as if the client had worked with this registry alone: what it holds after
a history is what it holds after the history restricted to it. In particular, a registration that is
given to a registry that has not issued it is without effect on any registry. But it is spent, and so
it can never be given back to the registry that has issued it: there it stays outstanding, and its
classes stay counted (`Wasted`).
-/

namespace ScopedCss

open StyleElement

/-- A class occurs in each of some trees at most as often as in all of them. -/
theorem StyleElement.occurrences_le_of_mem {n : ClassName} {e : StyleElement}
    {es : List StyleElement} (h : e ∈ es) : e.occurrences n ≤ occurrencesInAll n es := by
  induction es with
  | nil => cases h
  | cons e' es ih =>
    rw [occurrencesInAll]
    rcases List.mem_cons.1 h with rfl | h
    · omega
    · have hle := ih h
      omega

/-! ## Wasted registrations -/

/-- The registration `a`, which has the number `n`, is outstanding, and has been spent. -/
structure Wasted {α : Type} (slots : List (Option α)) (ps : List (Nat × α)) (n : Nat) (a : α) :
    Prop where
  spent : slots[n]? = some none
  outstanding : (n, a) ∈ ps

namespace Wasted

variable {α : Type} {slots : List (Option α)} {ps : List (Nat × α)} {m n : Nat} {a : α}

theorem append (h : Wasted slots ps n a) (x : Option α) : Wasted (slots ++ [x]) ps n a := by
  refine ⟨?_, h.outstanding⟩
  rw [List.getElem?_append_left (List.getElem?_eq_some_iff.1 h.spent).1]
  exact h.spent

theorem issue (h : Wasted slots ps n a) (x : Option α) (p : Nat × α) :
    Wasted (slots ++ [x]) (ps ++ [p]) n a :=
  ⟨(h.append x).spent, List.mem_append_left _ h.outstanding⟩

theorem set_none (h : Wasted slots ps n a) (m : Nat) : Wasted (slots.set m none) ps n a := by
  refine ⟨?_, h.outstanding⟩
  by_cases hm : m = n
  · subst hm
    exact List.getElem?_set_self (List.getElem?_eq_some_iff.1 h.spent).1
  · rw [List.getElem?_set_ne hm]
    exact h.spent

/-- Whatever is given back is another registration. -/
theorem filter (h : Wasted slots ps n a) {b : α} (hm : slots[m]? = some (some b)) :
    Wasted (slots.set m none) (ps.filter fun p => p.1 ≠ m) n a := by
  refine ⟨(h.set_none m).spent, List.mem_filter.2 ⟨h.outstanding, decide_eq_true fun e => ?_⟩⟩
  have hspent := h.spent
  rw [show n = m from e, hm] at hspent
  cases hspent

end Wasted

namespace Client

variable {σ : Type} [Sink σ] {k n : Nat}

section Turns

variable {r t : Registry σ} {regs regs' : List (Option Registration)}
  {globals globals' : List (Option GlobalRegistration)} {a : ClientAction} {o : ClientOutcome}
  {l : Ledger}

/-- A registration that is spent and outstanding stays so. No turn of the registry can take it from
the ledger, since a release has to find it in the hands of the client. -/
theorem Turn.wasted {reg : Registration} (h : Turn k r regs globals a o t regs' globals')
    (hw : Wasted regs l.registrations n reg) :
    Wasted regs' (l.record k a o).registrations n reg := by
  cases h with
  | inserted h =>
    simp only [Ledger.record, if_pos]
    exact hw.issue _ _
  | released hm =>
    simp only [Ledger.record, if_pos]
    exact hw.filter hm
  | insertFailed _ => exact hw.append none
  | insertedElsewhere hi _ =>
    simp only [Ledger.record, if_neg hi]
    exact hw.append _
  | failedElsewhere _ => exact hw.append none
  | releasedElsewhere hi =>
    simp only [Ledger.record, if_neg hi]
    exact hw.set_none _
  | insertedGlobal _ | releasedGlobal _ =>
    simp only [Ledger.record, if_pos]
    exact hw
  | insertedGlobalElsewhere hi _ | releasedGlobalElsewhere hi =>
    simp only [Ledger.record, if_neg hi]
    exact hw
  | insertGlobalFailed _ | operated | failedGlobalElsewhere _ => exact hw
  | idle hquiet =>
    rw [hquiet]
    exact hw

/-- The same for the registration of a global rule. -/
theorem Turn.wastedGlobal {reg : GlobalRegistration}
    (h : Turn k r regs globals a o t regs' globals') (hw : Wasted globals l.globals n reg) :
    Wasted globals' (l.record k a o).globals n reg := by
  cases h with
  | insertedGlobal h =>
    simp only [Ledger.record, if_pos]
    exact hw.issue _ _
  | releasedGlobal hm =>
    simp only [Ledger.record, if_pos]
    exact hw.filter hm
  | insertGlobalFailed _ => exact hw.append none
  | insertedGlobalElsewhere hi _ =>
    simp only [Ledger.record, if_neg hi]
    exact hw.append _
  | failedGlobalElsewhere _ => exact hw.append none
  | releasedGlobalElsewhere hi =>
    simp only [Ledger.record, if_neg hi]
    exact hw.set_none _
  | inserted _ | released _ =>
    simp only [Ledger.record, if_pos]
    exact hw
  | insertedElsewhere hi _ | releasedElsewhere hi =>
    simp only [Ledger.record, if_neg hi]
    exact hw
  | insertFailed _ | operated | failedElsewhere _ => exact hw
  | idle hquiet =>
    rw [hquiet]
    exact hw

end Turns

/-- What is kept by every turn of a registry holds as long as the client goes on. -/
theorem watch_invariant
    {P : List (Option Registration) → List (Option GlobalRegistration) → Ledger → Prop}
    (hturn : ∀ (r : Registry σ) regs globals a o t regs' globals' l,
      Turn k r regs globals a o t regs' globals' → P regs globals l →
        P regs' globals' (l.record k a o))
    {s : Client σ × Ledger} (hd : s.1.Distinct) (hk : k < s.1.registries.length)
    (hs : P s.1.registrations s.1.globals s.2) (events : List (ClientEvent σ)) :
    (events.foldl (watch k) s).1.Distinct ∧ P (events.foldl (watch k) s).1.registrations
      (events.foldl (watch k) s).1.globals (events.foldl (watch k) s).2 := by
  induction events generalizing s with
  | nil => exact ⟨hd, hs⟩
  | cons e events ih =>
    have hr := List.getElem?_eq_getElem hk
    have hk' : k < (watch k s e).1.registries.length := (length_watch k s e).symm ▸ hk
    cases e with
    | action a =>
      obtain ⟨hd', t, -, -, hstep⟩ := step_turn hd hr a
      exact ih hd' hk' (hturn _ _ _ _ _ _ _ _ _ hstep hs)
    | tamper i change =>
      obtain ⟨hd', -, hregs, hglobals⟩ := tamper_registry hd hr i change
      refine ih hd' hk' ?_
      show P (s.1.tamper i change).registrations (s.1.tamper i change).globals s.2
      rw [hregs, hglobals]
      exact hs

/-! ## Giving a registration to the wrong registry -/

/-- In the middle of a history, the registries are told apart, and the client has what the ledger of a
registry says. -/
theorem Fresh.halfway {c : Client σ} (hc : c.Fresh) (events : List (ClientEvent σ)) {r : Registry σ}
    (hr : (c.audit k events).1.registries[k]? = some r) :
    (c.audit k events).1.Distinct ∧ Balanced r.id (c.audit k events).1.registrations
      (c.audit k events).1.globals (c.audit k events).2 := by
  have hk : k < c.registries.length := by
    rw [← length_foldl_watch k (c, .empty) events]
    exact (List.getElem?_eq_some_iff.1 hr).1
  have hdistinct := watch_invariant (k := k) (s := (c, Ledger.empty))
    (P := fun _ _ _ => True) (fun _ _ _ _ _ _ _ _ _ _ _ => trivial) hc.ids_nodup hk trivial events
  have hbalanced := audit_change (P := fun _ _ => True) hc (fun _ _ => trivial)
    (fun _ _ _ _ _ _ _ _ => trivial) (fun _ _ _ _ _ => trivial) hr
  exact ⟨hdistinct.1, hbalanced.2⟩

omit [Sink σ] in
/-- To replace a registry by one that differs in its log changes nothing. -/
theorem contents_set {c c' : Client σ} {i : Nat} {s t : Registry σ}
    (hs : c.registries[i]? = some s) (ht : s.UpToLog t)
    (hc' : c'.registries = c.registries.set i t) : c'.contents = c.contents := by
  refine List.ext_getElem? fun j => ?_
  rw [contents, contents, hc', List.getElem?_map, List.getElem?_map]
  by_cases hj : i = j
  · subst hj
    rw [List.getElem?_set_self (List.getElem?_eq_some_iff.1 hs).1, hs, Option.map_some,
      Option.map_some, ht.entries, ht.sink]
  · rw [List.getElem?_set_ne hj]

section Wrong

variable {c : Client σ} {before : List (ClientEvent σ)} {i : Nat} {r s : Registry σ}

/-- What holds after an action, and is kept by every turn, holds for the rest of the history. -/
theorem Fresh.goes_on
    {P : List (Option Registration) → List (Option GlobalRegistration) → Ledger → Prop}
    (hturn : ∀ (r : Registry σ) regs globals a o t regs' globals' l,
      Turn k r regs globals a o t regs' globals' → P regs globals l →
        P regs' globals' (l.record k a o))
    (hc : c.Fresh) (hr : (c.audit k before).1.registries[k]? = some r) (a : ClientAction)
    (ha : P ((c.audit k before).1.step a).2.registrations ((c.audit k before).1.step a).2.globals
      ((c.audit k before).2.record k a ((c.audit k before).1.step a).1))
    (after : List (ClientEvent σ)) :
    P (c.audit k (before ++ .action a :: after)).1.registrations
      (c.audit k (before ++ .action a :: after)).1.globals
      (c.audit k (before ++ .action a :: after)).2 := by
  obtain ⟨hd, t, ht, -⟩ := step_turn (hc.halfway before hr).1 hr a
  have hrest := watch_invariant (s := watch k (c.audit k before) (.action a)) hturn hd
    (List.getElem?_eq_some_iff.1 ht).1 ha after
  rw [audit, List.foldl_append, List.foldl_cons]
  exact hrest.2

/-- A registration that is released into another registry changes nothing that any registry or sink
holds, and is wasted from then on. -/
theorem release_elsewhere {reg : Registration} (hc : c.Fresh)
    (hr : (c.runEvents before).registries[k]? = some r)
    (hs : (c.runEvents before).registries[i]? = some s) (hi : i ≠ k)
    (hn : (c.runEvents before).registrations[n]? = some (some reg)) (hreg : reg.registry = r.id)
    (after : List (ClientEvent σ)) :
    (c.runEvents (before ++ [.action (.release i n)])).contents = (c.runEvents before).contents ∧
      Wasted (c.audit k (before ++ .action (.release i n) :: after)).1.registrations
        (c.audit k (before ++ .action (.release i n) :: after)).2.registrations n reg := by
  rw [runEvents_append]
  rw [← audit_fst c k] at hr hs hn ⊢
  have hstep := step_release hs hn
  obtain ⟨hd, hbalanced⟩ := hc.halfway before hr
  constructor
  · have hne : reg.registry ≠ s.id := hreg ▸ (hd.id_ne hs hr hi).symm
    have hstays := Registry.upToLog_release_of_ne hne
    show ((c.audit k before).1.step (.release i n)).2.contents = _
    rw [hstep]
    exact contents_set hs hstays rfl
  · refine hc.goes_on (P := fun regs _ l => Wasted regs l.registrations n reg)
      (fun _ _ _ _ _ _ _ _ _ h => h.wasted) hr (.release i n) ?_ after
    rw [hstep]
    simp only [Ledger.record, if_neg hi]
    refine ⟨List.getElem?_set_self (List.getElem?_eq_some_iff.1 hn).1, ?_⟩
    exact hbalanced.registrations.outstanding n reg hn hreg

/-- The same for the registration of a global rule. -/
theorem releaseGlobal_elsewhere {reg : GlobalRegistration} (hc : c.Fresh)
    (hr : (c.runEvents before).registries[k]? = some r)
    (hs : (c.runEvents before).registries[i]? = some s) (hi : i ≠ k)
    (hn : (c.runEvents before).globals[n]? = some (some reg)) (hreg : reg.registry = r.id)
    (after : List (ClientEvent σ)) :
    (c.runEvents (before ++ [.action (.releaseGlobal i n)])).contents =
        (c.runEvents before).contents ∧
      Wasted (c.audit k (before ++ .action (.releaseGlobal i n) :: after)).1.globals
        (c.audit k (before ++ .action (.releaseGlobal i n) :: after)).2.globals n reg := by
  rw [runEvents_append]
  rw [← audit_fst c k] at hr hs hn ⊢
  have hstep := step_releaseGlobal hs hn
  obtain ⟨hd, hbalanced⟩ := hc.halfway before hr
  constructor
  · have hne : reg.registry ≠ s.id := hreg ▸ (hd.id_ne hs hr hi).symm
    have hstays := Registry.upToLog_releaseGlobal_of_ne hne
    show ((c.audit k before).1.step (.releaseGlobal i n)).2.contents = _
    rw [hstep]
    exact contents_set hs hstays rfl
  · refine hc.goes_on (P := fun _ globals l => Wasted globals l.globals n reg)
      (fun _ _ _ _ _ _ _ _ _ h => h.wastedGlobal) hr (.releaseGlobal i n) ?_ after
    rw [hstep]
    simp only [Ledger.record, if_neg hi]
    refine ⟨List.getElem?_set_self (List.getElem?_eq_some_iff.1 hn).1, ?_⟩
    exact hbalanced.globals.outstanding n reg hn hreg

end Wrong

/-- What is outstanding is counted. -/
theorem occurrences_le_refCount {c : Client σ} (hc : c.Fresh) {events : List (ClientEvent σ)}
    {r : Registry σ} (hr : (c.audit k events).1.registries[k]? = some r) (m : ClassName) :
    r.refCount m = occurrencesInAll m (c.audit k events).2.elements ∧
      ∀ n reg, (n, reg) ∈ (c.audit k events).2.registrations →
        reg.element.occurrences m ≤ r.refCount m := by
  have htallies := (audit_change (P := fun r l => r.Tallies (classNamesOfAll l.elements)) hc
    (fun r hr => .of_empty (hc.entries_empty r (List.mem_of_getElem? hr)))
    (fun a _ r l t l' h hchange => hchange.tallies h) (fun _ _ r l h => h.of_entries rfl) hr).1
  have hcount : r.refCount m = occurrencesInAll m (c.audit k events).2.elements := by
    rw [(occurrences_eq_count m).2, htallies.refCount_eq]
  refine ⟨hcount, fun n reg hmem => ?_⟩
  rw [hcount]
  exact occurrences_le_of_mem (List.mem_map_of_mem (f := fun p => p.2.element) hmem)

/-- Registries do not interfere. After any history of any client, whatever happens to the sinks and
wherever registrations are given back, each registry holds what it holds after the history restricted
to it; and the restricted history of the whole goes on from that of each part. To give a registration,
of an element or of a global rule, to a registry that has not issued it changes no registry. The
registration is spent then, and for the rest of the history it is outstanding at the registry that has
issued it, where all its classes stay counted. -/
theorem registries_do_not_interfere {c : Client σ} (hc : c.Fresh) (k : Nat)
    (before after : List (ClientEvent σ)) :
    (∃ rest, c.restrict k (before ++ after) = c.restrict k before ++ rest) ∧
    (c.runEvents before).contents[k]? = (c.runEvents (c.restrict k before)).contents[k]? ∧
    ∀ (i n : Nat) (r s : Registry σ), (c.runEvents before).registries[k]? = some r →
      (c.runEvents before).registries[i]? = some s → i ≠ k →
      (∀ reg, (c.runEvents before).registrations[n]? = some (some reg) → reg.registry = r.id →
        let wrong := ClientEvent.action (.release i n)
        let whole := c.audit k (before ++ wrong :: after)
        (c.runEvents (before ++ [wrong])).contents = (c.runEvents before).contents ∧
          whole.1.registrations[n]? = some none ∧ (n, reg) ∈ whole.2.registrations ∧
          ∀ t, whole.1.registries[k]? = some t → ∀ m,
            t.refCount m = occurrencesInAll m whole.2.elements ∧
              reg.element.occurrences m ≤ t.refCount m) ∧
      ∀ reg, (c.runEvents before).globals[n]? = some (some reg) → reg.registry = r.id →
        let wrong := ClientEvent.action (.releaseGlobal i n)
        let whole := c.audit k (before ++ wrong :: after)
        (c.runEvents (before ++ [wrong])).contents = (c.runEvents before).contents ∧
          whole.1.globals[n]? = some none ∧ (n, reg) ∈ whole.2.globals := by
  refine ⟨restrictFrom_append k c .empty before after, contents_restrict hc k before, ?_⟩
  intro i n r s hr hs hi
  constructor
  · intro reg hn hreg wrong whole
    obtain ⟨hsame, hw⟩ := release_elsewhere hc hr hs hi hn hreg after
    refine ⟨hsame, hw.spent, hw.outstanding, fun t ht m => ?_⟩
    obtain ⟨hcount, hle⟩ := occurrences_le_refCount hc ht m
    exact ⟨hcount, hle n reg hw.outstanding⟩
  · intro reg hn hreg wrong whole
    obtain ⟨hsame, hw⟩ := releaseGlobal_elsewhere hc hr hs hi hn hreg after
    exact ⟨hsame, hw.spent, hw.outstanding⟩

/-- Two registries that hold the same class, and rules under the same two handles. A registration of the
first one is given to the second one and is spent when its own registry is to take it back; so is that
of a global rule, whose handle is that of another global rule there. -/
theorem registries_do_not_interfere_same_handles :
    let a : StyleElement := .node [] (some ⟨⟨"A", by decide⟩, [⟨"a"⟩]⟩)
    let c : Client MemorySink := .ofSinks ⟨.strict⟩ [.empty, .empty]
    let before : List (ClientEvent MemorySink) := [.action (.insert 0 a), .action (.insert 1 a),
      .action (.insertGlobal 1 ⟨"g"⟩), .action (.insertGlobal 0 ⟨"h"⟩)]
    let after : List (ClientEvent MemorySink) := [.action (.insert 0 a), .action (.release 0 0),
      .action (.release 0 2), .tamper 1 MemorySink.clear]
    let whole := before ++ .action (.release 1 0) :: after
    (c.runEvents whole).contents[0]? = (c.runEvents (c.restrict 0 whole)).contents[0]? ∧
      (c.runEvents (before ++ [.action (.release 1 0)])).contents = (c.runEvents before).contents ∧
      (c.audit 0 whole).1.registrations[0]? = some none ∧
      (∃ t, (c.audit 0 whole).1.registries[0]? = some t ∧ 1 ≤ t.refCount ⟨"A", by decide⟩) ∧
      (c.runEvents (before ++ [.action (.releaseGlobal 1 1)])).contents =
        (c.runEvents before).contents := by
  intro a c before after whole
  have hc : c.Fresh := fresh_ofSinks ⟨.strict⟩ [MemorySink.empty, MemorySink.empty]
  have hids : ((c.runEvents before).registries.map Registry.id) = [0, 1] := by decide +kernel
  obtain ⟨r, s, hregistries⟩ := List.length_eq_two.1 ((List.length_map _).symm.trans
    (congrArg List.length hids))
  rw [hregistries] at hids
  have hr : (c.runEvents before).registries[0]? = some r := by rw [hregistries]; rfl
  have hs : (c.runEvents before).registries[1]? = some s := by rw [hregistries]; rfl
  have hid : r.id = 0 := (List.cons.inj hids).1
  have hn : (c.runEvents before).registrations[0]? = some (some ⟨0, a⟩) := by decide +kernel
  have hg : (c.runEvents before).globals[1]? = some (some ⟨0, ⟨"h"⟩, some ⟨1⟩⟩) := by
    decide +kernel
  obtain ⟨t, ht⟩ : ∃ t, (c.audit 0 whole).1.registries[0]? = some t := by
    refine Option.isSome_iff_exists.1 ?_
    decide +kernel
  obtain ⟨-, -, hwrong⟩ := registries_do_not_interfere hc 0 before after
  obtain ⟨hsame, hspent, -, hcounted⟩ := (hwrong 1 0 r s hr hs (by decide)).1 _ hn hid.symm
  obtain ⟨hsameGlobal, -⟩ := (hwrong 1 1 r s hr hs (by decide)).2 _ hg hid.symm
  refine ⟨(registries_do_not_interfere hc 0 whole []).2.1, hsame, hspent, ⟨t, ht, ?_⟩, hsameGlobal⟩
  exact (hcounted t ht ⟨"A", by decide⟩).2

end Client

end ScopedCss
