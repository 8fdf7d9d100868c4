import ScopedCss.Proofs.Registry.Rollback
import ScopedCss.Registry.Client

/-!
# The order of releases

Registrations share classes through overlapping trees, so which release takes the rules of a class
from the sink depends on the order of the releases, and the registries on the way differ. Where they
end does not. Whatever is taken back, classes are given up one after the other, and the handles of
global rules besides; the two do not get into each other's way, and the order of either is of no
account. What is left of the order is in the log, and nobody looks at that.
-/

namespace ScopedCss

/-- What a registry gives out, and takes back once. -/
inductive Receipt where
  /-- The registration of an element. -/
  | element (reg : Registration)
  /-- The registration of a rule that belongs to no class. -/
  | rule (reg : GlobalRegistration)
  deriving DecidableEq

namespace Receipt

/-- The classes that are given up when the registry `id` takes the registration back. -/
def names (id : Nat) : Receipt → List ClassName
  | .element reg => if reg.registry = id then reg.element.classNames else []
  | .rule _ => []

/-- The handles that are given up, besides those of the classes. -/
def handles (id : Nat) : Receipt → List Handle
  | .element _ => []
  | .rule reg => if reg.registry = id then reg.handle.toList else []

end Receipt

namespace Registry

open LawfulSink

variable {σ : Type} [Sink σ]

/-- Takes a registration of either kind back. -/
def takeBack (r : Registry σ) : Receipt → Registry σ
  | .element reg => r.release reg
  | .rule reg => r.releaseGlobal reg

/-- Takes several registrations back, first to last. -/
def takeBackAll (r : Registry σ) (receipts : List Receipt) : Registry σ := receipts.foldl takeBack r

/-- Gives up several classes, and then some handles that belong to none. -/
def giveUp (r : Registry σ) (names : List ClassName) (handles : List Handle) : Registry σ :=
  { r.relinquishAll names with sink := Sink.retractAll (r.relinquishAll names).sink handles }

theorem UpToLog.giveUp {r t : Registry σ} (h : UpToLog r t) (names : List ClassName)
    (handles : List Handle) : UpToLog (r.giveUp names handles) (t.giveUp names handles) := by
  have hnames := h.relinquishAll names
  exact ⟨hnames.id, hnames.config, hnames.entries, congrArg (Sink.retractAll · handles) hnames.sink⟩

/-- Taking a registration back is giving up what it stands for. -/
theorem upToLog_takeBack (r : Registry σ) (x : Receipt) :
    UpToLog (r.giveUp (x.names r.id) (x.handles r.id)) (r.takeBack x) := by
  cases x with
  | element reg =>
    by_cases hreg : reg.registry = r.id
    · simp only [takeBack, release, Receipt.names, Receipt.handles, if_pos hreg]
      rw [removeElement_eq]
      exact .refl _
    · simp only [takeBack, release, Receipt.names, Receipt.handles, if_neg hreg]
      exact ⟨rfl, rfl, rfl, rfl⟩
  | rule reg =>
    by_cases hreg : reg.registry = r.id
    · simp only [takeBack, releaseGlobal, Receipt.names, Receipt.handles, if_pos hreg]
      cases reg.handle <;> exact .refl _
    · simp only [takeBack, releaseGlobal, Receipt.names, Receipt.handles, if_neg hreg]
      exact ⟨rfl, rfl, rfl, rfl⟩

variable [LawfulSink σ]

/-- A class and handles that belong to none can be given up in either order. -/
theorem relinquish_giveUp (r : Registry σ) (n : ClassName) (handles : List Handle) :
    UpToLog ((r.relinquish n).giveUp [] handles) ((r.giveUp [] handles).relinquish n) := by
  refine ⟨?_, ?_, ?_, ?_⟩
  · rw [relinquish_id]
    exact (relinquish_id r n).symm
  · rw [relinquish_config]
    exact (relinquish_config r n).symm
  · rw [relinquish_entries]
    exact (relinquish_entries r n).symm
  · rw [relinquish_sink]
    show Sink.retractAll (Sink.retractAll r.sink handles) (freed r.entries n) =
      Sink.retractAll (r.relinquish n).sink handles
    rw [relinquish_sink]
    exact retractAll_comm r.sink handles (freed r.entries n)

theorem relinquishAll_giveUp (r : Registry σ) (names : List ClassName) (handles : List Handle) :
    UpToLog (r.giveUp names handles) ((r.giveUp [] handles).relinquishAll names) := by
  induction names generalizing r with
  | nil => exact .refl _
  | cons n names ih =>
    have hfirst := (relinquish_giveUp r n handles).relinquishAll names
    exact (ih (r.relinquish n)).trans hfirst

/-- Giving up twice is giving up all of it. -/
theorem upToLog_giveUp_giveUp (r : Registry σ) (ns ms : List ClassName) (hs gs : List Handle) :
    UpToLog (r.giveUp (ns ++ ms) (hs ++ gs)) ((r.giveUp ns hs).giveUp ms gs) := by
  have hmid : UpToLog ((r.relinquishAll ns).giveUp ms hs) ((r.giveUp ns hs).relinquishAll ms) :=
    relinquishAll_giveUp (r.relinquishAll ns) ms hs
  have hall : UpToLog (r.giveUp (ns ++ ms) (hs ++ gs))
      (((r.relinquishAll ns).giveUp ms hs).giveUp [] gs) := by
    simp only [giveUp, relinquishAll_append, Sink.retractAll_append]
    exact .refl _
  exact hall.trans (hmid.giveUp [] gs)

/-- Taking back receipts one after the other gives up all of their classes, and all of their handles
besides. -/
theorem upToLog_takeBackAll (r : Registry σ) (xs : List Receipt) :
    UpToLog (r.giveUp (xs.flatMap (Receipt.names r.id)) (xs.flatMap (Receipt.handles r.id)))
      (r.takeBackAll xs) := by
  induction xs generalizing r with
  | nil => exact .refl _
  | cons x xs ih =>
    have hx := upToLog_takeBack r x
    have hid : (r.takeBack x).id = r.id := by
      cases x with
      | element reg => exact (continues_release r reg).id
      | rule reg => exact (continues_releaseGlobal r reg).id
    have hxs := ih (r.takeBack x)
    rw [hid] at hxs
    exact (upToLog_giveUp_giveUp r _ _ _ _).trans ((hx.giveUp _ _).trans hxs)

/-- Giving up the same in another order. -/
theorem giveUp_perm (r : Registry σ) {ns ms : List ClassName} {hs gs : List Handle}
    (hnames : ns.Perm ms) (hhandles : hs.Perm gs) : UpToLog (r.giveUp ns hs) (r.giveUp ms gs) := by
  have h := relinquishAll_perm hnames r
  refine ⟨h.id, h.config, h.entries, ?_⟩
  show Sink.retractAll (r.relinquishAll ms).sink gs = Sink.retractAll (r.relinquishAll ns).sink hs
  rw [h.sink]
  exact (retractAll_perm hhandles _).symm

/-- Registrations can be taken back in any order, elements and global rules interleaved. The registry
has the same entries afterwards, with the same counts and handles, and its sink is the same in every
respect: it holds the same rules in the same order, region by region if it has several. -/
theorem release_order_irrelevant {xs ys : List Receipt} (h : xs.Perm ys) (r : Registry σ) :
    (r.takeBackAll xs).entries = (r.takeBackAll ys).entries ∧
      (r.takeBackAll xs).sink = (r.takeBackAll ys).sink := by
  have hx := upToLog_takeBackAll r xs
  have hy := upToLog_takeBackAll r ys
  have hperm : UpToLog
      (r.giveUp (xs.flatMap (Receipt.names r.id)) (xs.flatMap (Receipt.handles r.id)))
      (r.giveUp (ys.flatMap (Receipt.names r.id)) (ys.flatMap (Receipt.handles r.id))) :=
    giveUp_perm r (h.flatMap_right _) (h.flatMap_right _)
  refine ⟨?_, ?_⟩
  · rw [hx.entries, hy.entries, hperm.entries]
  · rw [hx.sink, hy.sink, hperm.sink]

/-- A style sheet with rules in both regions, one of them without a class. The trees share a class, so
in one order the last release takes its rules from the sheet, and in the other order the first. -/
theorem release_order_irrelevant_overlap :
    let a : StyleElement := .node [] (some ⟨⟨"A", by decide⟩, [⟨"x \x7b\x7d"⟩, ⟨"@x \x7b\x7d"⟩]⟩)
    let b : StyleElement := .node [a, a] (some ⟨⟨"B", by decide⟩, [⟨"@y \x7b\x7d"⟩]⟩)
    let c : Client SheetSink := .ofSinks ⟨.strict⟩ [.empty]
    let actions : List ClientAction :=
      [.insert 0 a, .insertGlobal 0 ⟨"@z \x7b\x7d"⟩, .insert 0 b, .insert 0 b]
    let x : Receipt := .element ⟨0, b⟩
    let y : Receipt := .rule ⟨0, ⟨"@z \x7b\x7d"⟩, some ⟨2⟩⟩
    let z : Receipt := .element ⟨0, a⟩
    ∃ r, (c.run actions).registries[0]? = some r ∧
      (r.takeBack z).entries ≠ (r.takeBack x).entries ∧
      (r.takeBackAll [z, y, x, x]).entries = (r.takeBackAll [x, y, z, x]).entries ∧
      (r.takeBackAll [z, y, x, x]).sink = (r.takeBackAll [x, y, z, x]).sink := by
  intro a b c actions x y z
  have hsome : ((c.run actions).registries[0]?.map fun r =>
      decide ((r.takeBack z).entries ≠ (r.takeBack x).entries)) = some true := by decide +kernel
  obtain ⟨r, hr, hne⟩ := Option.map_eq_some_iff.1 hsome
  have hperm : [z, y, x, x].Perm [x, y, z, x] := by decide +kernel
  exact ⟨r, hr, of_decide_eq_true hne, release_order_irrelevant hperm r⟩

end Registry

end ScopedCss
