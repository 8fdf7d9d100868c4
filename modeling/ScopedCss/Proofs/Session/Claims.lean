import ScopedCss.Proofs.Registry.Holdings
import ScopedCss.Session.Desk

/-!
# What the guards stand for

A guard that is left keeps its element inserted, or its rule held. A guard that ended while the
registry was in use has lost its registration, so what it stood for stays for good; the notice that
it left behind says what that is. Together these are the claims on the registry.

While the registry is in use nothing can change the claims (`Drift`): a guard may end, but then its
claim moves from the guards to the notices.
-/

namespace ScopedCss

namespace Notice

/-- The element whose styles stay, if a notice says that a style guard has lost its registration. -/
def lostElement : Notice → Option StyleElement
  | .stylesLeaked e => some e
  | _ => none

/-- The rule that stays, if a notice says that a global guard has lost its registration. -/
def lostRules : Notice → HeldRules
  | .ruleLeaked rule handle => handle.toList.map fun h => (h, rule)
  | _ => []

theorem lostElement_of_not_isLeak {n : Notice} (h : n.isLeak = false) : n.lostElement = none := by
  cases n <;> first | rfl | cases h

theorem lostRules_of_not_isLeak {n : Notice} (h : n.isLeak = false) : n.lostRules = [] := by
  cases n <;> first | rfl | cases h

end Notice

/-- The rule that the sink holds for a guard. -/
def GlobalGuard.held (g : GlobalGuard) : HeldRules := g.registration.elim [] GlobalRegistration.held

/-! ## Slots -/

section Slots

variable {α : Type}

theorem filterMap_none : [(none : Option α)].filterMap id = [] := rfl

theorem filterMap_some (a : α) : [some a].filterMap id = [a] := rfl

/-- Emptying a slot takes what was in it. -/
theorem filterMap_set_none {slots : List (Option α)} {n : Nat} {a : α}
    (h : slots[n]? = some (some a)) :
    (slots.filterMap id).Perm (a :: (slots.set n none).filterMap id) := by
  induction slots generalizing n with
  | nil => cases h
  | cons o slots ih =>
    cases n with
    | zero =>
      cases h
      exact .refl _
    | succ n =>
      have hp := ih (n := n) h
      cases o with
      | none => exact hp
      | some b => exact (hp.cons b).trans (.swap a b _)

end Slots

/-! ## Claims -/

namespace Desk

/-- The elements of the style guards that are left. -/
def aliveElements (d : Desk) : List StyleElement := (d.guards.filterMap id).map StyleGuard.element

/-- The elements of the style guards that have lost their registrations. -/
def lostElements (d : Desk) : List StyleElement := d.log.filterMap Notice.lostElement

/-- The rules of the global guards that are left, with their handles. -/
def aliveRules (d : Desk) : HeldRules := (d.globals.filterMap id).flatMap GlobalGuard.held

/-- The rules of the global guards that have lost their registrations, with their handles. -/
def lostRules (d : Desk) : HeldRules := d.log.flatMap Notice.lostRules

/-- The elements that are to stay inserted. -/
def claims (d : Desk) : List StyleElement := d.aliveElements ++ d.lostElements

/-- The global rules that are to stay held. -/
def ruleClaims (d : Desk) : HeldRules := d.aliveRules ++ d.lostRules

/-- Every guard that is left has its registration, which the registry `id` has issued. -/
structure Guarded (id : Nat) (d : Desk) : Prop where
  guards : ∀ g, some g ∈ d.guards → g.registration = some ⟨id, g.element⟩
  globals : ∀ g, some g ∈ d.globals → ∃ reg, g.registration = some reg ∧ reg.registry = id

/-- One desk has become another one, and the claims are the same. -/
def Drift (id : Nat) (d d' : Desk) : Prop :=
  Guarded id d → Guarded id d' ∧ d'.claims.Perm d.claims ∧ d'.ruleClaims.Perm d.ruleClaims

namespace Drift

variable {id : Nat} {d d' d'' : Desk}

theorem refl (d : Desk) : Drift id d d := fun h => ⟨h, .refl _, .refl _⟩

theorem trans (h : Drift id d d') (h' : Drift id d' d'') : Drift id d d'' := by
  intro hd
  obtain ⟨hd', hclaims, hrules⟩ := h hd
  obtain ⟨hd'', hclaims', hrules'⟩ := h' hd'
  exact ⟨hd'', hclaims'.trans hclaims, hrules'.trans hrules⟩

/-- What is neither a guard nor a notice does not matter. -/
theorem of_eq (hguards : d'.guards = d.guards) (hglobals : d'.globals = d.globals)
    (hlog : d'.log = d.log) : Drift id d d' := by
  intro hd
  unfold claims ruleClaims aliveElements aliveRules lostElements lostRules
  rw [hguards, hglobals, hlog]
  refine ⟨⟨?_, ?_⟩, .refl _, .refl _⟩
  · rw [hguards]
    exact hd.guards
  · rw [hglobals]
    exact hd.globals

/-- Notices about other things than guards do not matter. -/
theorem note (d : Desk) {ns : List Notice} (hns : ∀ n ∈ ns, n.isLeak = false) :
    Drift id d (d.note ns) := by
  intro hd
  have helements : ns.filterMap Notice.lostElement = [] :=
    List.filterMap_eq_nil_iff.2 fun n hn => Notice.lostElement_of_not_isLeak (hns n hn)
  have hrules : ns.flatMap Notice.lostRules = [] :=
    List.flatMap_eq_nil_iff.2 fun n hn => Notice.lostRules_of_not_isLeak (hns n hn)
  refine ⟨⟨hd.guards, hd.globals⟩, ?_, ?_⟩
  · unfold claims lostElements Desk.note
    rw [List.filterMap_append, helements, List.append_nil]
    exact .refl _
  · unfold ruleClaims lostRules Desk.note
    rw [List.flatMap_append, hrules, List.append_nil]
    exact .refl _

/-- An empty place for a guard changes no claim. -/
theorem keepGuard_none (d : Desk) : Drift id d (d.keepGuard none) := by
  intro hd
  refine ⟨⟨fun g hg => ?_, hd.globals⟩, ?_, .refl _⟩
  · rcases List.mem_append.1 hg with hg | hg
    · exact hd.guards g hg
    · cases List.mem_singleton.1 hg
  · unfold claims aliveElements Desk.keepGuard
    rw [List.filterMap_append, filterMap_none, List.append_nil]
    exact .refl _

/-- An empty place for a global guard changes none. -/
theorem keepGlobal_none (d : Desk) : Drift id d (d.keepGlobal none) := by
  intro hd
  refine ⟨⟨hd.guards, fun g hg => ?_⟩, .refl _, ?_⟩
  · rcases List.mem_append.1 hg with hg | hg
    · exact hd.globals g hg
    · cases List.mem_singleton.1 hg
  · unfold ruleClaims aliveRules Desk.keepGlobal
    rw [List.filterMap_append, filterMap_none, List.append_nil]
    exact .refl _

end Drift

/-! ## Guards come and go -/

variable {id : Nat} {d : Desk}

theorem Guarded.keepGuard (hd : Guarded id d) {g : StyleGuard}
    (hg : g.registration = some ⟨id, g.element⟩) : Guarded id (d.keepGuard (some g)) := by
  refine ⟨fun g' hg' => ?_, hd.globals⟩
  rcases List.mem_append.1 hg' with hg' | hg'
  · exact hd.guards g' hg'
  · cases List.mem_singleton.1 hg'
    exact hg

/-- A global guard with a registration of the registry can be kept. -/
theorem Guarded.keepGlobal (hd : Guarded id d) {g : GlobalGuard} {reg : GlobalRegistration}
    (hg : g.registration = some reg) (hreg : reg.registry = id) :
    Guarded id (d.keepGlobal (some g)) := by
  refine ⟨hd.guards, fun g' hg' => ?_⟩
  rcases List.mem_append.1 hg' with hg' | hg'
  · exact hd.globals g' hg'
  · cases List.mem_singleton.1 hg'
    exact ⟨reg, hg, hreg⟩

theorem Guarded.spendGuard (hd : Guarded id d) (n : Nat) : Guarded id (d.spendGuard n) := by
  refine ⟨fun g hg => ?_, hd.globals⟩
  rcases List.mem_or_eq_of_mem_set hg with hg | hg
  · exact hd.guards g hg
  · cases hg

theorem Guarded.spendGlobal (hd : Guarded id d) (n : Nat) : Guarded id (d.spendGlobal n) := by
  refine ⟨hd.guards, fun g hg => ?_⟩
  rcases List.mem_or_eq_of_mem_set hg with hg | hg
  · exact hd.globals g hg
  · cases hg

theorem claims_keepGuard (d : Desk) (g : StyleGuard) :
    (d.keepGuard (some g)).claims.Perm (g.element :: d.claims) := by
  unfold claims aliveElements Desk.keepGuard
  rw [List.filterMap_append, filterMap_some, List.map_append]
  exact (List.perm_append_singleton g.element _).append_right d.lostElements

theorem ruleClaims_keepGlobal (d : Desk) (g : GlobalGuard) :
    (d.keepGlobal (some g)).ruleClaims.Perm (g.held ++ d.ruleClaims) := by
  unfold ruleClaims aliveRules Desk.keepGlobal
  rw [List.filterMap_append, filterMap_some, List.flatMap_append, List.flatMap_singleton,
    ← List.append_assoc]
  exact List.perm_append_comm.append_right d.lostRules

theorem getElem?_of_guard? {n : Nat} {g : StyleGuard} (h : d.guard? n = some g) :
    d.guards[n]? = some (some g) := Option.join_eq_some_iff.1 h

theorem getElem?_of_global? {n : Nat} {g : GlobalGuard} (h : d.global? n = some g) :
    d.globals[n]? = some (some g) := Option.join_eq_some_iff.1 h

theorem claims_spendGuard {n : Nat} {g : StyleGuard} (h : d.guard? n = some g) :
    d.claims.Perm (g.element :: (d.spendGuard n).claims) :=
  ((filterMap_set_none (getElem?_of_guard? h)).map StyleGuard.element).append_right d.lostElements

theorem ruleClaims_spendGlobal {n : Nat} {g : GlobalGuard} (h : d.global? n = some g) :
    d.ruleClaims.Perm (g.held ++ (d.spendGlobal n).ruleClaims) := by
  have hp := (filterMap_set_none (getElem?_of_global? h)).flatMap_right GlobalGuard.held
  rw [List.flatMap_cons] at hp
  unfold ruleClaims
  rw [← List.append_assoc]
  exact hp.append_right d.lostRules

/-! ## Guards that end while the registry is in use -/

theorem claims_note_stylesLeaked (d : Desk) (e : StyleElement) :
    (d.note [.stylesLeaked e]).claims.Perm (e :: d.claims) := by
  unfold claims lostElements Desk.note
  rw [List.filterMap_append, ← List.append_assoc]
  exact List.perm_append_singleton e _

theorem ruleClaims_note_ruleLeaked (d : Desk) (reg : GlobalRegistration) :
    (d.note [.ruleLeaked reg.rule reg.handle]).ruleClaims.Perm (reg.held ++ d.ruleClaims) := by
  unfold ruleClaims lostRules Desk.note
  rw [List.flatMap_append, List.flatMap_singleton, ← List.append_assoc]
  exact List.perm_append_comm

/-- A guard that ends leaves its claim to the notice. -/
theorem drift_leak {n : Nat} {g : StyleGuard} (h : d.guard? n = some g) :
    Drift id d ((d.spendGuard n).note g.leak.2) := by
  intro hd
  have hreg := hd.guards g (List.mem_of_getElem? (getElem?_of_guard? h))
  have hleak : g.leak.2 = [.stylesLeaked g.element] := by rw [StyleGuard.leak, hreg]
  rw [hleak]
  have hspent := hd.spendGuard n
  refine ⟨⟨hspent.guards, hspent.globals⟩, ?_, .of_eq ?_⟩
  · exact (claims_note_stylesLeaked _ _).trans (claims_spendGuard h).symm
  · unfold ruleClaims lostRules Desk.note
    rw [List.flatMap_append]
    exact congrArg _ (List.append_nil _)

/-- A global guard that ends while the registry is in use leaves its claim to the notice. -/
theorem drift_leakGlobal {n : Nat} {g : GlobalGuard} (h : d.global? n = some g) :
    Drift id d ((d.spendGlobal n).note g.leak.2) := by
  intro hd
  obtain ⟨reg, hreg, -⟩ := hd.globals g (List.mem_of_getElem? (getElem?_of_global? h))
  have hleak : g.leak.2 = [.ruleLeaked reg.rule reg.handle] := by rw [GlobalGuard.leak, hreg]
  have hheld : g.held = reg.held := by rw [GlobalGuard.held, hreg]; rfl
  rw [hleak]
  have hspent := hd.spendGlobal n
  refine ⟨⟨hspent.guards, hspent.globals⟩, .of_eq ?_, ?_⟩
  · unfold claims lostElements Desk.note
    rw [List.filterMap_append]
    exact congrArg _ (List.append_nil _)
  · have hspend := ruleClaims_spendGlobal h
    rw [hheld] at hspend
    exact (ruleClaims_note_ruleLeaked _ _).trans hspend.symm

end Desk

end ScopedCss
