import ScopedCss.Proofs.Client.History

/-!
# The ledger of a registry

The ledger agrees with what the client has in its hands (`Agrees`): every registration that the
client has from the registry is outstanding, and one that is outstanding is still there unless it
was wasted on another registry. So a registration that is given back to its registry is one of the
outstanding ones, and leaves the ledger.

Seen from the registry and its ledger, a turn is therefore one of a few changes (`Change`), and the
hands of the client need not be looked at any more: `audit_change` is the induction over histories
for laws about a registry and its ledger.
-/

namespace ScopedCss

namespace Client

/-! ## What the client has in its hands -/

/-- The registrations outstanding at a registry, with their numbers, agree with those that the
client has. -/
structure Agrees {α : Type} (owner : α → Nat) (id : Nat) (slots : List (Option α))
    (ps : List (Nat × α)) : Prop where
  nodup : (ps.map Prod.fst).Nodup
  /-- What is outstanding was issued by the registry, and is there or has been spent. -/
  slot : ∀ p ∈ ps, owner p.2 = id ∧ (slots[p.1]? = some (some p.2) ∨ slots[p.1]? = some none)
  /-- What is there and was issued by the registry is outstanding. -/
  outstanding : ∀ n a, slots[n]? = some (some a) → owner a = id → (n, a) ∈ ps

namespace Agrees

variable {α : Type} {owner : α → Nat} {id : Nat} {slots : List (Option α)} {ps : List (Nat × α)}
  {n : Nat} {a : α}

theorem nil : Agrees owner id [] [] := by
  refine ⟨List.nodup_nil, fun p hp => ?_, fun n a h => ?_⟩
  · cases hp
  · cases h

theorem lt_length (h : Agrees owner id slots ps) {p : Nat × α} (hp : p ∈ ps) :
    p.1 < slots.length := by
  rcases (h.slot p hp).2 with hs | hs
  · exact (List.getElem?_eq_some_iff.1 hs).1
  · exact (List.getElem?_eq_some_iff.1 hs).1

/-- One more number that does not concern the registry. -/
theorem append_other (h : Agrees owner id slots ps) {o : Option α}
    (ho : ∀ a, o = some a → owner a ≠ id) : Agrees owner id (slots ++ [o]) ps := by
  refine ⟨h.nodup, fun p hp => ?_, fun n a hn hown => ?_⟩
  · rw [List.getElem?_append_left (h.lt_length hp)]
    exact h.slot p hp
  · rw [List.getElem?_append] at hn
    split at hn
    · exact h.outstanding n a hn hown
    · rw [List.getElem?_singleton] at hn
      split at hn
      · exact absurd hown (ho a (Option.some.inj hn))
      · cases hn

/-- The registry issues a registration. -/
theorem append_own (h : Agrees owner id slots ps) (ha : owner a = id) :
    Agrees owner id (slots ++ [some a]) (ps ++ [(slots.length, a)]) := by
  refine ⟨?_, fun p hp => ?_, fun n b hn hown => ?_⟩
  · rw [List.map_append, List.map_singleton, ← List.concat_eq_append, List.nodup_concat]
    refine ⟨fun hm => ?_, h.nodup⟩
    obtain ⟨p, hp, hlen⟩ := List.mem_map.1 hm
    have hlt := h.lt_length hp
    omega
  · rcases List.mem_append.1 hp with hp | hp
    · rw [List.getElem?_append_left (h.lt_length hp)]
      exact h.slot p hp
    · obtain rfl := List.mem_singleton.1 hp
      exact ⟨ha, .inl List.getElem?_concat_length⟩
  · rw [List.getElem?_append] at hn
    split at hn
    · exact List.mem_append_left _ (h.outstanding n b hn hown)
    · next hlt =>
      rw [List.getElem?_singleton] at hn
      split at hn
      · next hz =>
        cases hn
        have : n = slots.length := by omega
        exact List.mem_append_right _ (by rw [this]; exact List.mem_singleton_self _)
      · cases hn

/-- A number is spent without the registry taking notice. -/
theorem set_none (h : Agrees owner id slots ps) (n : Nat) : Agrees owner id (slots.set n none) ps := by
  refine ⟨h.nodup, fun p hp => ⟨(h.slot p hp).1, ?_⟩, fun m a hm hown => ?_⟩
  · by_cases hn : n = p.1
    · subst hn
      exact .inr (List.getElem?_set_self (h.lt_length hp))
    · rw [List.getElem?_set_ne hn]
      exact (h.slot p hp).2
  · rw [List.getElem?_set] at hm
    split at hm
    · split at hm <;> cases hm
    · exact h.outstanding m a hm hown

/-- What is given back to the registry that issued it was outstanding. -/
theorem perm_of_own (h : Agrees owner id slots ps) (hn : slots[n]? = some (some a))
    (ha : owner a = id) : ps.Perm ((n, a) :: ps.filter fun p => p.1 ≠ n) := by
  have hmem : (n, a) ∈ ps := h.outstanding n a hn ha
  have herase := Pairs.perm_cons_erase h.nodup (Pairs.get?_of_mem h.nodup hmem)
  exact herase

/-- What another registry issued was not outstanding. -/
theorem filter_eq_of_other (h : Agrees owner id slots ps) (hn : slots[n]? = some (some a))
    (ha : owner a ≠ id) : (ps.filter fun p => p.1 ≠ n) = ps := by
  refine List.filter_eq_self.2 fun p hp => decide_eq_true fun e => ?_
  obtain ⟨hown, hs | hs⟩ := h.slot p hp
  · rw [e, hn] at hs
    cases hs
    exact ha hown
  · rw [e, hn] at hs
    cases hs

/-- A number is spent, and what it stood for leaves the ledger. -/
theorem spend (h : Agrees owner id slots ps) (n : Nat) :
    Agrees owner id (slots.set n none) (ps.filter fun p => p.1 ≠ n) := by
  have hs := h.set_none n
  refine ⟨h.nodup.sublist (List.filter_sublist.map _), fun p hp => ?_, fun m a hm hown => ?_⟩
  · exact hs.slot p (List.mem_of_mem_filter hp)
  · refine List.mem_filter.2 ⟨hs.outstanding m a hm hown, decide_eq_true fun e => ?_⟩
    subst e
    rw [List.getElem?_set, if_pos rfl] at hm
    split at hm <;> cases hm

end Agrees

/-- The ledger of the registry `id` agrees with what the client has, element by element and global
rule by global rule. -/
structure Balanced (id : Nat) (regs : List (Option Registration))
    (globals : List (Option GlobalRegistration)) (l : Ledger) : Prop where
  registrations : Agrees Registration.registry id regs l.registrations
  globals : Agrees GlobalRegistration.registry id globals l.globals

/-! ## Changes -/

variable {σ : Type} [Sink σ]

/-- What an action changes for registry `k` and its ledger. -/
inductive Change (k : Nat) (r : Registry σ) (l : Ledger) :
    ClientAction → Registry σ → Ledger → Prop where
  /-- An element is inserted. -/
  | inserted {e : StyleElement} {n : Nat} {t : Registry σ} (h : r.insertElement e = (.ok (), t)) :
      Change k r l (.insert k e) t { l with registrations := l.registrations ++ [(n, ⟨r.id, e⟩)] }
  /-- An element is refused. -/
  | insertFailed {e : StyleElement} {err : RegistryError} {t : Registry σ}
      (h : r.insertElement e = (.error err, t)) : Change k r l (.insert k e) t l
  /-- An outstanding registration is given back. -/
  | released {n : Nat} {reg : Registration} {rest : List (Nat × Registration)}
      (h : l.registrations.Perm ((n, reg) :: rest)) :
      Change k r l (.release k n) (r.removeElement reg.element) { l with registrations := rest }
  /-- A global rule is inserted. -/
  | insertedGlobal {rule : StyleRule} {n : Nat} {reg : GlobalRegistration} {t : Registry σ}
      (h : r.insertGlobal rule = (.ok reg, t)) :
      Change k r l (.insertGlobal k rule) t { l with globals := l.globals ++ [(n, reg)] }
  /-- A global rule is refused. -/
  | insertGlobalFailed {rule : StyleRule} {err : RegistryError} {t : Registry σ}
      (h : r.insertGlobal rule = (.error err, t)) : Change k r l (.insertGlobal k rule) t l
  /-- An outstanding registration of a global rule is given back. -/
  | releasedGlobal {n : Nat} {reg : GlobalRegistration} {rest : List (Nat × GlobalRegistration)}
      (hreg : reg.registry = r.id) (h : l.globals.Perm ((n, reg) :: rest)) :
      Change k r l (.releaseGlobal k n) (r.releaseGlobal reg) { l with globals := rest }
  /-- The sink is operated. -/
  | operated {op : SinkOperation} : Change k r l (.operate k op) (r.operate op) l
  /-- A registration of another registry is ignored. -/
  | noted {a : ClientAction} (notice : Notice) : Change k r l a (r.note notice) l
  /-- Nothing is changed. -/
  | idle {a : ClientAction} : Change k r l a r l

/-- A turn leaves the registry its identity. -/
theorem Turn.id_eq {k : Nat} {r t : Registry σ} {regs regs' : List (Option Registration)}
    {globals globals' : List (Option GlobalRegistration)} {a : ClientAction} {o : ClientOutcome}
    (h : Turn k r regs globals a o t regs' globals') : t.id = r.id := by
  cases h with
  | @inserted e reg t h | @insertFailed e err t h =>
    have hid := (Registry.continues_insert r e).id
    rw [h] at hid
    exact hid
  | @insertedGlobal rule reg t h | @insertGlobalFailed rule err t h =>
    have hid := (Registry.continues_insertGlobal r rule).id
    rw [h] at hid
    exact hid
  | released h => exact (Registry.continues_release r _).id
  | releasedGlobal h => exact (Registry.continues_releaseGlobal r _).id
  | _ => rfl

/-- A turn changes the registry and its ledger in one of these ways, and the ledger goes on to
agree with what the client has. -/
theorem Turn.change {k : Nat} {r t : Registry σ} {regs regs' : List (Option Registration)}
    {globals globals' : List (Option GlobalRegistration)} {a : ClientAction} {o : ClientOutcome}
    {l : Ledger} (h : Turn k r regs globals a o t regs' globals')
    (hl : Balanced r.id regs globals l) :
    Change k r l a t (l.record k a o) ∧ Balanced t.id regs' globals' (l.record k a o) := by
  obtain ⟨hregs, hglobals⟩ := hl
  have hnone : ∀ {α : Type} (owner : α → Nat) (a : α), none = some a → owner a ≠ r.id :=
    fun _ _ e => by cases e
  rw [h.id_eq]
  cases h with
  | inserted h =>
    obtain ⟨rfl, he⟩ := Registry.insert_ok h
    simp only [Ledger.record, if_pos]
    exact ⟨.inserted he, hregs.append_own rfl, hglobals⟩
  | insertFailed h =>
    exact ⟨.insertFailed (Registry.insert_error h), hregs.append_other (hnone _), hglobals⟩
  | @released n reg hn =>
    simp only [Ledger.record, if_pos]
    refine ⟨?_, hregs.spend n, hglobals⟩
    rw [Registry.release]
    by_cases hreg : reg.registry = r.id
    · rw [if_pos hreg]
      exact .released (hregs.perm_of_own hn hreg)
    · rw [if_neg hreg, hregs.filter_eq_of_other hn hreg]
      exact .noted _
  | insertedGlobal h =>
    simp only [Ledger.record, if_pos]
    exact ⟨.insertedGlobal h, hregs, hglobals.append_own (Registry.insertGlobal_ok h).1⟩
  | insertGlobalFailed h =>
    exact ⟨.insertGlobalFailed h, hregs, hglobals.append_other (hnone _)⟩
  | @releasedGlobal n reg hn =>
    simp only [Ledger.record, if_pos]
    refine ⟨?_, hregs, hglobals.spend n⟩
    by_cases hreg : reg.registry = r.id
    · exact .releasedGlobal hreg (hglobals.perm_of_own hn hreg)
    · rw [Registry.releaseGlobal, if_neg hreg, hglobals.filter_eq_of_other hn hreg]
      exact .noted _
  | operated => exact ⟨.operated, hregs, hglobals⟩
  | insertedElsewhere hi hreg =>
    simp only [Ledger.record, if_neg hi]
    refine ⟨.idle, hregs.append_other fun a e => ?_, hglobals⟩
    cases e
    exact hreg
  | failedElsewhere hi => exact ⟨.idle, hregs.append_other (hnone _), hglobals⟩
  | releasedElsewhere hi =>
    simp only [Ledger.record, if_neg hi]
    exact ⟨.idle, hregs.set_none _, hglobals⟩
  | insertedGlobalElsewhere hi hreg =>
    simp only [Ledger.record, if_neg hi]
    refine ⟨.idle, hregs, hglobals.append_other fun a e => ?_⟩
    cases e
    exact hreg
  | failedGlobalElsewhere hi => exact ⟨.idle, hregs, hglobals.append_other (hnone _)⟩
  | releasedGlobalElsewhere hi =>
    simp only [Ledger.record, if_neg hi]
    exact ⟨.idle, hregs, hglobals.set_none _⟩
  | idle hquiet =>
    rw [hquiet]
    exact ⟨.idle, hregs, hglobals⟩

/-- What holds of a registry with an empty ledger at first, and is kept by every change and
whenever the sink is tampered with, holds after the history, and the ledger agrees with what the
client has. -/
theorem audit_change {c : Client σ} (hc : c.Fresh) {k : Nat} {events : List (ClientEvent σ)}
    {P : Registry σ → Ledger → Prop} (hinit : ∀ r, c.registries[k]? = some r → P r .empty)
    (hchange : ∀ a, ClientEvent.action a ∈ events → ∀ r l t l', P r l → Change k r l a t l' → P t l')
    (htamper : ∀ change, ClientEvent.tamper k change ∈ events → ∀ r l,
      P r l → P { r with sink := change r.sink } l)
    {t : Registry σ} (ht : (c.audit k events).1.registries[k]? = some t) :
    P t (c.audit k events).2 ∧
      Balanced t.id (c.audit k events).1.registrations (c.audit k events).1.globals
        (c.audit k events).2 := by
  refine audit_invariant (P := fun r regs globals l => P r l ∧ Balanced r.id regs globals l)
    hc.ids_nodup (fun r hr => ⟨hinit r hr, ?_, ?_⟩) ?_ ?_ ht
  · rw [hc.registrations_nil]
    exact .nil
  · rw [hc.globals_nil]
    exact .nil
  · rintro a ha r regs globals l o t regs' globals' ⟨hP, hl⟩ hturn
    obtain ⟨hchanged, hl'⟩ := hturn.change hl
    exact ⟨hchange a ha r l t _ hP hchanged, hl'⟩
  · rintro change hm r regs globals l ⟨hP, hl⟩
    exact ⟨htamper change hm r l hP, hl⟩

end Client

end ScopedCss
