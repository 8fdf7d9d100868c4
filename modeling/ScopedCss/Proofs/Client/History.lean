import ScopedCss.Proofs.Registry.Frame
import ScopedCss.Registry.Client

/-!
# Histories of a client

A client works with several registries at once, gives registrations back to whichever registry it
likes, and may reach past a registry to its sink at any time. Laws about one registry are stated
over such histories. `Ledger` is the account of one registry that a bystander would keep from what
is done and what comes of it: a registration is outstanding from the moment the registry issues it
until it is given back to that very registry.

`Turn` says once what a step can do, seen from one registry: it is either one of the operations of
the registry itself, or something that happens elsewhere and changes the client's registrations
only.
-/

namespace ScopedCss

/-! ## Events -/

/-- Something that happens to a client and its registries. -/
inductive ClientEvent (σ : Type) where
  /-- The client does something. -/
  | action (a : ClientAction)
  /-- The sink of a registry is changed in any way, past the registry. -/
  | tamper (registry : Nat) (change : σ → σ)

/-- The registrations of one registry that are outstanding, with their numbers. -/
structure Ledger where
  /-- The registrations of elements. -/
  registrations : List (Nat × Registration)
  /-- The registrations of global rules. -/
  globals : List (Nat × GlobalRegistration)

namespace Ledger

/-- The account before anything has been done. -/
def empty : Ledger := ⟨[], []⟩

/-- Enters an action and what has come of it into the account of the registry with number `k`. -/
def record (k : Nat) (l : Ledger) : ClientAction → ClientOutcome → Ledger
  | .insert i _, .inserted n reg =>
    if i = k then { l with registrations := l.registrations ++ [(n, reg)] } else l
  | .release i n, .done =>
    if i = k then { l with registrations := l.registrations.filter fun p => p.1 ≠ n } else l
  | .insertGlobal i _, .insertedGlobal n reg =>
    if i = k then { l with globals := l.globals ++ [(n, reg)] } else l
  | .releaseGlobal i n, .done =>
    if i = k then { l with globals := l.globals.filter fun p => p.1 ≠ n } else l
  | _, _ => l

/-- The elements that are registered. -/
def elements (l : Ledger) : List StyleElement := l.registrations.map fun p => p.2.element

end Ledger

namespace Client

variable {σ : Type}

/-- A client before it has done anything: its registries are told apart by their identities, and
none of them has an entry yet. -/
structure Fresh (c : Client σ) : Prop where
  ids_nodup : (c.registries.map Registry.id).Nodup
  entries_empty : ∀ r ∈ c.registries, r.entries = OrderedMap.empty
  registrations_nil : c.registrations = []
  globals_nil : c.globals = []

theorem mapIdx_id (config : RegistryConfig) (sinks : List σ) :
    (sinks.mapIdx fun i s => Registry.new i config s).map Registry.id = List.range sinks.length := by
  refine List.ext_getElem (by simp) fun i h h' => ?_
  simp [Registry.new]

theorem fresh_ofSinks (config : RegistryConfig) (sinks : List σ) : (ofSinks config sinks).Fresh := by
  refine ⟨?_, ?_, rfl, rfl⟩
  · rw [ofSinks, mapIdx_id]
    exact List.nodup_range
  · intro r hr
    obtain ⟨i, hi, rfl⟩ := List.mem_mapIdx.1 hr
    rfl

/-- The identities of the registries are pairwise distinct. -/
def Distinct (c : Client σ) : Prop := (c.registries.map Registry.id).Nodup

/-- Registries stay distinct when one of them is replaced by a successor. -/
theorem Distinct.set {c c' : Client σ} (hc : c.Distinct) {k : Nat} {r t : Registry σ}
    (hr : c.registries[k]? = some r) (ht : t.id = r.id)
    (hc' : c'.registries = c.registries.set k t) : c'.Distinct := by
  have hids : (c.registries.set k t).map Registry.id = c.registries.map Registry.id := by
    refine List.ext_getElem? fun i => ?_
    rw [List.getElem?_map, List.getElem?_map, List.getElem?_set]
    split
    · next hi =>
      subst hi
      rw [hr]
      split
      · rw [Option.map_some, Option.map_some, ht]
      · next hlt => exact absurd (List.getElem?_eq_some_iff.1 hr).1 hlt
    · rfl
  unfold Distinct
  rw [hc', hids]
  exact hc

/-- Registries at different places have different identities. -/
theorem Distinct.id_ne {c : Client σ} (hc : c.Distinct) {i k : Nat} {s r : Registry σ}
    (hs : c.registries[i]? = some s) (hr : c.registries[k]? = some r) (hi : i ≠ k) :
    s.id ≠ r.id := by
  intro e
  have hlt : i < (c.registries.map Registry.id).length := by
    rw [List.length_map]
    exact (List.getElem?_eq_some_iff.1 hs).1
  refine hi ((List.getElem?_inj hlt hc).1 ?_)
  rw [List.getElem?_map, List.getElem?_map, hs, hr, Option.map_some, Option.map_some, e]

/-- Changes the sink of a registry past the registry. -/
def tamper (c : Client σ) (k : Nat) (change : σ → σ) : Client σ :=
  match c.registries[k]? with
  | none => c
  | some r => c.put k { r with sink := change r.sink }

/-- Changing a sink past its registry concerns nothing but that sink. -/
theorem tamper_registry {c : Client σ} (hc : c.Distinct) {k : Nat} {r : Registry σ}
    (hr : c.registries[k]? = some r) (i : Nat) (change : σ → σ) :
    (c.tamper i change).Distinct ∧
      (c.tamper i change).registries[k]? =
        some (if i = k then { r with sink := change r.sink } else r) ∧
      (c.tamper i change).registrations = c.registrations ∧
      (c.tamper i change).globals = c.globals := by
  unfold tamper
  cases hi : c.registries[i]? with
  | none =>
    have hk : i ≠ k := by
      rintro rfl
      rw [hr] at hi
      cases hi
    exact ⟨hc, by rw [if_neg hk]; exact hr, rfl, rfl⟩
  | some s =>
    have hid : ({ s with sink := change s.sink } : Registry σ).id = s.id := rfl
    refine ⟨hc.set hi hid rfl, ?_, rfl, rfl⟩
    by_cases hk : i = k
    · subst hk
      cases hi.symm.trans hr
      rw [if_pos rfl]
      exact List.getElem?_set_self (List.getElem?_eq_some_iff.1 hr).1
    · rw [if_neg hk]
      exact (List.getElem?_set_ne hk).trans hr

variable [Sink σ]

/-- The client after an event, and the account of registry `k`. -/
def watch (k : Nat) : Client σ × Ledger → ClientEvent σ → Client σ × Ledger
  | (c, l), .action a => ((c.step a).2, l.record k a (c.step a).1)
  | (c, l), .tamper i change => (c.tamper i change, l)

/-- The client after a history of events, and the account of registry `k`. -/
def audit (c : Client σ) (k : Nat) (events : List (ClientEvent σ)) : Client σ × Ledger :=
  events.foldl (watch k) (c, .empty)

/-- To audit a history without tampering leaves the client where its run does. -/
theorem audit_actions (c : Client σ) (k : Nat) (actions : List ClientAction) :
    (c.audit k (actions.map .action)).1 = c.run actions := by
  have hgen : ∀ l : Ledger, ((actions.map ClientEvent.action).foldl (watch k) (c, l)).1 =
      c.run actions := by
    induction actions generalizing c with
    | nil => exact fun l => rfl
    | cons a actions ih => exact fun l => ih (c.step a).2 _
  exact hgen .empty

/-! ## What a step can do -/

/-- One action of a client, seen from its registry number `k`: what becomes of the registry, of the
registrations and of the registrations of global rules. -/
inductive Turn (k : Nat) (r : Registry σ) (regs : List (Option Registration))
    (globals : List (Option GlobalRegistration)) :
    ClientAction → ClientOutcome → Registry σ → List (Option Registration) →
      List (Option GlobalRegistration) → Prop where
  /-- The registry takes an element. -/
  | inserted {e : StyleElement} {reg : Registration} {t : Registry σ}
      (h : r.insert e = (.ok reg, t)) :
      Turn k r regs globals (.insert k e) (.inserted regs.length reg) t (regs ++ [some reg]) globals
  /-- The registry refuses an element. -/
  | insertFailed {e : StyleElement} {err : RegistryError} {t : Registry σ}
      (h : r.insert e = (.error err, t)) :
      Turn k r regs globals (.insert k e) (.failed err) t (regs ++ [none]) globals
  /-- A registration is given back to the registry, whoever issued it. -/
  | released {n : Nat} {reg : Registration} (h : regs[n]? = some (some reg)) :
      Turn k r regs globals (.release k n) .done (r.release reg) (regs.set n none) globals
  /-- The registry takes a global rule. -/
  | insertedGlobal {rule : StyleRule} {reg : GlobalRegistration} {t : Registry σ}
      (h : r.insertGlobal rule = (.ok reg, t)) :
      Turn k r regs globals (.insertGlobal k rule) (.insertedGlobal globals.length reg) t regs
        (globals ++ [some reg])
  /-- The registry refuses a global rule. -/
  | insertGlobalFailed {rule : StyleRule} {err : RegistryError} {t : Registry σ}
      (h : r.insertGlobal rule = (.error err, t)) :
      Turn k r regs globals (.insertGlobal k rule) (.failed err) t regs (globals ++ [none])
  /-- The registration of a global rule is given back to the registry, whoever issued it. -/
  | releasedGlobal {n : Nat} {reg : GlobalRegistration} (h : globals[n]? = some (some reg)) :
      Turn k r regs globals (.releaseGlobal k n) .done (r.releaseGlobal reg) regs
        (globals.set n none)
  /-- The owner operates the sink. -/
  | operated {op : SinkOperation} :
      Turn k r regs globals (.operate k op) .done (r.operate op) regs globals
  /-- Another registry takes an element. -/
  | insertedElsewhere {i : Nat} {e : StyleElement} {reg : Registration} (hi : i ≠ k)
      (hreg : reg.registry ≠ r.id) :
      Turn k r regs globals (.insert i e) (.inserted regs.length reg) r (regs ++ [some reg]) globals
  /-- Another registry refuses an element. -/
  | failedElsewhere {i : Nat} {e : StyleElement} {err : RegistryError} (hi : i ≠ k) :
      Turn k r regs globals (.insert i e) (.failed err) r (regs ++ [none]) globals
  /-- A registration is given back to another registry. -/
  | releasedElsewhere {i n : Nat} (hi : i ≠ k) :
      Turn k r regs globals (.release i n) .done r (regs.set n none) globals
  /-- Another registry takes a global rule. -/
  | insertedGlobalElsewhere {i : Nat} {rule : StyleRule} {reg : GlobalRegistration} (hi : i ≠ k)
      (hreg : reg.registry ≠ r.id) :
      Turn k r regs globals (.insertGlobal i rule) (.insertedGlobal globals.length reg) r regs
        (globals ++ [some reg])
  /-- Another registry refuses a global rule. -/
  | failedGlobalElsewhere {i : Nat} {rule : StyleRule} {err : RegistryError} (hi : i ≠ k) :
      Turn k r regs globals (.insertGlobal i rule) (.failed err) r regs (globals ++ [none])
  /-- The registration of a global rule is given back to another registry. -/
  | releasedGlobalElsewhere {i n : Nat} (hi : i ≠ k) :
      Turn k r regs globals (.releaseGlobal i n) .done r regs (globals.set n none)
  /-- Nothing happens that would be seen from the registry. -/
  | idle {a : ClientAction} {o : ClientOutcome} (hquiet : ∀ l : Ledger, l.record k a o = l) :
      Turn k r regs globals a o r regs globals

/-- A step that puts a registry `t` in the place of `s` is a turn of registry `k` if it is one in
either case: that `s` is this registry, or that it is another one. -/
theorem turn_of_set {c c' : Client σ} (hc : c.Distinct) {k i : Nat} {r s t : Registry σ}
    {a : ClientAction} {o : ClientOutcome} (hr : c.registries[k]? = some r)
    (hs : c.registries[i]? = some s) (ht : t.id = s.id)
    (hc' : c'.registries = c.registries.set i t)
    (own : i = k → Turn k s c.registrations c.globals a o t c'.registrations c'.globals)
    (elsewhere : i ≠ k → s.id ≠ r.id →
      Turn k r c.registrations c.globals a o r c'.registrations c'.globals) :
    c'.Distinct ∧ ∃ t, c'.registries[k]? = some t ∧ t.id = r.id ∧
      Turn k r c.registrations c.globals a o t c'.registrations c'.globals := by
  refine ⟨hc.set hs ht hc', ?_⟩
  rw [hc']
  by_cases hk : i = k
  · subst hk
    cases hs.symm.trans hr
    exact ⟨t, List.getElem?_set_self (List.getElem?_eq_some_iff.1 hr).1, ht, own rfl⟩
  · exact ⟨r, (List.getElem?_set_ne hk).trans hr, rfl, elsewhere hk (hc.id_ne hs hr hk)⟩

/-- A step is a turn of every registry, and keeps the registries apart. -/
theorem step_turn {c : Client σ} (hc : c.Distinct) {k : Nat} {r : Registry σ}
    (hr : c.registries[k]? = some r) (a : ClientAction) :
    (c.step a).2.Distinct ∧ ∃ t, (c.step a).2.registries[k]? = some t ∧ t.id = r.id ∧
      Turn k r c.registrations c.globals a (c.step a).1 t (c.step a).2.registrations
        (c.step a).2.globals := by
  have hidle : ∀ o : ClientOutcome, (∀ l : Ledger, l.record k a o = l) →
      c.Distinct ∧ ∃ t, c.registries[k]? = some t ∧ t.id = r.id ∧
        Turn k r c.registrations c.globals a o t c.registrations c.globals :=
    fun o ho => ⟨hc, r, hr, rfl, .idle ho⟩
  cases a with
  | insert i e =>
    cases hi : c.registries[i]? with
    | none => simp only [step, hi]; exact hidle _ fun l => rfl
    | some s =>
      have hid := (Registry.continues_insert s e).id
      rcases hs : s.insert e with ⟨err | reg, t⟩ <;> rw [hs] at hid <;> simp only [step, hi, hs]
      · exact turn_of_set hc hr hi hid rfl (fun h => h ▸ .insertFailed hs)
          fun h _ => .failedElsewhere h
      · refine turn_of_set hc hr hi hid rfl (fun h => h ▸ .inserted hs) fun h hne => ?_
        exact .insertedElsewhere h ((Registry.insert_ok hs).1 ▸ hne)
  | release i n =>
    cases hi : c.registries[i]? with
    | none => simp only [step, hi]; exact hidle _ fun l => rfl
    | some s =>
      rcases hn : c.registrations[n]? with _ | _ | reg <;> simp only [step, hi, hn]
      · exact hidle _ fun l => rfl
      · exact hidle _ fun l => rfl
      · exact turn_of_set hc hr hi (Registry.continues_release s reg).id rfl
          (fun h => h ▸ .released hn) fun h _ => .releasedElsewhere h
  | insertGlobal i rule =>
    cases hi : c.registries[i]? with
    | none => simp only [step, hi]; exact hidle _ fun l => rfl
    | some s =>
      have hid := (Registry.continues_insertGlobal s rule).id
      rcases hs : s.insertGlobal rule with ⟨err | reg, t⟩ <;> rw [hs] at hid <;>
        simp only [step, hi, hs]
      · exact turn_of_set hc hr hi hid rfl (fun h => h ▸ .insertGlobalFailed hs)
          fun h _ => .failedGlobalElsewhere h
      · refine turn_of_set hc hr hi hid rfl (fun h => h ▸ .insertedGlobal hs) fun h hne => ?_
        exact .insertedGlobalElsewhere h ((Registry.insertGlobal_ok hs).1 ▸ hne)
  | releaseGlobal i n =>
    cases hi : c.registries[i]? with
    | none => simp only [step, hi]; exact hidle _ fun l => rfl
    | some s =>
      rcases hn : c.globals[n]? with _ | _ | reg <;> simp only [step, hi, hn]
      · exact hidle _ fun l => rfl
      · exact hidle _ fun l => rfl
      · exact turn_of_set hc hr hi (Registry.continues_releaseGlobal s reg).id rfl
          (fun h => h ▸ .releasedGlobal hn) fun h _ => .releasedGlobalElsewhere h
  | operate i op =>
    cases hi : c.registries[i]? with
    | none => simp only [step, hi]; exact hidle _ fun l => rfl
    | some s =>
      simp only [step, hi]
      have hid : (s.operate op).id = s.id := rfl
      exact turn_of_set hc hr hi hid rfl (fun h => h ▸ .operated) fun _ _ => .idle fun l => rfl

/-! ## Runs -/

/-- An event adds no registry and takes none away. -/
theorem length_watch (k : Nat) (s : Client σ × Ledger) (e : ClientEvent σ) :
    (watch k s e).1.registries.length = s.1.registries.length := by
  cases e with
  | action a =>
    show (s.1.step a).2.registries.length = _
    cases a <;> simp only [step] <;> split <;> (try split) <;> simp [put]
  | tamper i change =>
    show (s.1.tamper i change).registries.length = _
    unfold tamper
    split <;> simp [put]

theorem length_foldl_watch (k : Nat) (s : Client σ × Ledger) (events : List (ClientEvent σ)) :
    (events.foldl (watch k) s).1.registries.length = s.1.registries.length := by
  induction events generalizing s with
  | nil => rfl
  | cons e events ih => exact (ih _).trans (length_watch k s e)

/-- What holds of a registry and its account at first, and is kept by every turn and by every change
to its sink that occurs, holds after the history. -/
theorem audit_invariant {c : Client σ} (hc : c.Distinct) {k : Nat} {events : List (ClientEvent σ)}
    {P : Registry σ → List (Option Registration) → List (Option GlobalRegistration) → Ledger → Prop}
    (hinit : ∀ r, c.registries[k]? = some r → P r c.registrations c.globals .empty)
    (hturn : ∀ a, ClientEvent.action a ∈ events → ∀ r regs globals l o t regs' globals',
      P r regs globals l → Turn k r regs globals a o t regs' globals' →
        P t regs' globals' (l.record k a o))
    (htamper : ∀ change, ClientEvent.tamper k change ∈ events → ∀ r regs globals l,
      P r regs globals l → P { r with sink := change r.sink } regs globals l)
    {t : Registry σ} (ht : (c.audit k events).1.registries[k]? = some t) :
    P t (c.audit k events).1.registrations (c.audit k events).1.globals (c.audit k events).2 := by
  -- Along the way, the registries stay apart and the invariant holds of the one at `k`.
  have hgen : ∀ (es : List (ClientEvent σ)) (s : Client σ × Ledger), es ⊆ events → s.1.Distinct →
      (∀ r, s.1.registries[k]? = some r → P r s.1.registrations s.1.globals s.2) →
      (es.foldl (watch k) s).1.registries[k]? = some t →
      P t (es.foldl (watch k) s).1.registrations (es.foldl (watch k) s).1.globals
        (es.foldl (watch k) s).2 := by
    intro es
    induction es with
    | nil => exact fun s _ _ hs ht => hs t ht
    | cons e es ih =>
      intro s hsub hd hs ht
      obtain ⟨he, hes⟩ := List.cons_subset.1 hsub
      have hlen : k < s.1.registries.length := by
        rw [← length_foldl_watch k s (e :: es)]
        exact (List.getElem?_eq_some_iff.1 ht).1
      have hr := List.getElem?_eq_getElem hlen
      cases e with
      | action a =>
        obtain ⟨hd', t', ht', -, hstep⟩ := step_turn hd hr a
        refine ih _ hes hd' (fun r' hr' => ?_) ht
        cases ht'.symm.trans hr'
        exact hturn a he _ _ _ _ _ _ _ _ (hs _ hr) hstep
      | tamper i change =>
        obtain ⟨hd', ht', hregs, hglobals⟩ := tamper_registry hd hr i change
        refine ih (s.1.tamper i change, s.2) hes hd' (fun r' hr' => ?_) ht
        cases ht'.symm.trans hr'
        rw [hregs, hglobals]
        split
        · next hk => exact htamper change (hk ▸ he) _ _ _ _ (hs _ hr)
        · exact hs _ hr
  exact hgen events (c, .empty) (List.Subset.refl _) hc hinit ht

end Client

end ScopedCss
