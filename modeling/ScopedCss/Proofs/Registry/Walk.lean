import ScopedCss.Proofs.OrderedMap
import ScopedCss.Proofs.Sink.Taking
import ScopedCss.Registry.Basic

/-!
# Walking a tree, class by class

Insertion and release walk the tree of an element, children first. Removing a tree is nothing but
giving up its class names one after the other, and a successful insertion is nothing but acquiring
its fragments one after the other. A failed one acquires fragments up to one that is refused, and
then gives up what it has acquired. What giving up a single class does to the entries and the sink is
stated here as well.
-/

namespace ScopedCss

namespace StyleElement

/-- Induction over the tree of an element and over lists of trees. -/
theorem induct {P : StyleElement → Prop} {Q : List StyleElement → Prop}
    (node : ∀ cs owned, Q cs → P (.node cs owned)) (nil : Q [])
    (cons : ∀ e es, P e → Q es → Q (e :: es)) : (∀ e, P e) ∧ ∀ es, Q es :=
  ⟨fun e => @StyleElement.rec P Q node nil cons e, fun es => @StyleElement.rec_1 P Q node nil cons es⟩

/-- The class names of the tree, children first, once per path. -/
def classNames (e : StyleElement) : List ClassName := e.fragments.map Fragment.className

/-- The class names of several trees, one after the other. -/
def classNamesOfAll (es : List StyleElement) : List ClassName := es.flatMap classNames

theorem fragmentsOfAll_classNames (es : List StyleElement) :
    (fragmentsOfAll es).map Fragment.className = classNamesOfAll es := by
  induction es with
  | nil => rfl
  | cons e es ih =>
    rw [fragmentsOfAll, List.map_append, ih]
    rfl

theorem classNames_node (cs : List StyleElement) (owned : Option Fragment) :
    (node cs owned).classNames = classNamesOfAll cs ++ owned.toList.map Fragment.className := by
  rw [classNames, fragments, List.map_append, fragmentsOfAll_classNames]

theorem classNamesOfAll_cons (e : StyleElement) (es : List StyleElement) :
    classNamesOfAll (e :: es) = e.classNames ++ classNamesOfAll es := List.flatMap_cons

/-- The names of a list of trees, whatever the order of the trees. -/
theorem classNamesOfAll_perm {es es' : List StyleElement} (h : es.Perm es') :
    (classNamesOfAll es).Perm (classNamesOfAll es') := h.flatMap_right _

end StyleElement

namespace Registry

open LawfulSink StyleElement

variable {σ : Type} [Sink σ]

/-! ## Walks as folds -/

/-- Gives up several classes, first to last. -/
def relinquishAll (r : Registry σ) (ns : List ClassName) : Registry σ := ns.foldl relinquish r

theorem relinquishAll_append (r : Registry σ) (ns ms : List ClassName) :
    r.relinquishAll (ns ++ ms) = (r.relinquishAll ns).relinquishAll ms := List.foldl_append

/-- Removing a tree gives up its class names one after the other, children first. -/
theorem removals_eq :
    (∀ (e : StyleElement) (r : Registry σ), r.removeElement e = r.relinquishAll e.classNames) ∧
    ∀ (es : List StyleElement) (r : Registry σ),
      r.removeAll es = r.relinquishAll (classNamesOfAll es) := by
  refine StyleElement.induct (fun cs owned ih r => ?_) (fun r => rfl) fun e es ihe ihes r => ?_
  · rw [classNames_node, relinquishAll_append, ← ih]
    cases owned with
    | none => rfl
    | some f => rfl
  · rw [removeAll, ihe, ihes, classNamesOfAll_cons, relinquishAll_append]

theorem removeElement_eq (r : Registry σ) (e : StyleElement) :
    r.removeElement e = r.relinquishAll e.classNames := removals_eq.1 e r

theorem removeAll_eq (r : Registry σ) (es : List StyleElement) :
    r.removeAll es = r.relinquishAll (classNamesOfAll es) := removals_eq.2 es r

/-- Acquires several fragments, first to last, up to the first that is refused. -/
def acquireAll (r : Registry σ) : List Fragment → Except RegistryError Unit × Registry σ
  | [] => (.ok (), r)
  | f :: fs =>
    match r.acquire f with
    | (.error e, r) => (.error e, r)
    | (.ok (), r) => acquireAll r fs

/-- Acquiring a list of fragments goes well exactly if the first one does and then the others do. -/
theorem acquireAll_cons_ok {r t : Registry σ} {f : Fragment} {fs : List Fragment} :
    r.acquireAll (f :: fs) = (.ok (), t) ↔
      ∃ s, r.acquire f = (.ok (), s) ∧ s.acquireAll fs = (.ok (), t) := by
  rw [acquireAll]
  constructor
  · intro h
    split at h
    · cases h
    · next s hs => exact ⟨s, hs, h⟩
  · rintro ⟨s, hs, h⟩
    rw [hs]
    exact h

/-- A list in two parts is acquired exactly if one part is and then the other. -/
theorem acquireAll_append_ok {r t : Registry σ} {fs gs : List Fragment} :
    r.acquireAll (fs ++ gs) = (.ok (), t) ↔
      ∃ s, r.acquireAll fs = (.ok (), s) ∧ s.acquireAll gs = (.ok (), t) := by
  induction fs generalizing r with
  | nil => exact ⟨fun h => ⟨r, rfl, h⟩, fun ⟨s, hs, h⟩ => by cases hs; exact h⟩
  | cons f fs ih =>
    rw [List.cons_append, acquireAll_cons_ok]
    constructor
    · rintro ⟨s, hs, h⟩
      obtain ⟨u, hu, h⟩ := ih.1 h
      exact ⟨u, acquireAll_cons_ok.2 ⟨s, hs, hu⟩, h⟩
    · rintro ⟨u, hu, h⟩
      obtain ⟨s, hs, hu⟩ := acquireAll_cons_ok.1 hu
      exact ⟨s, hs, ih.2 ⟨u, hu, h⟩⟩

/-- An insertion that succeeds has acquired the fragments of the tree in order. Nothing of what it
does to undo its work is reached. -/
theorem insertions_ok :
    (∀ (e : StyleElement) (r t : Registry σ), r.insertElement e = (.ok (), t) →
      r.acquireAll e.fragments = (.ok (), t)) ∧
    ∀ (es : List StyleElement) (r t : Registry σ) (done : List StyleElement),
      r.insertAll done es = (.ok (), t) → r.acquireAll (fragmentsOfAll es) = (.ok (), t) := by
  refine StyleElement.induct (fun cs owned ih r t h => ?_) (fun r t done h => h)
    fun e es ihe ihes r t done h => ?_
  · rw [insertElement] at h
    rw [fragments, acquireAll_append_ok]
    split at h
    · cases h
    · next s hs =>
      refine ⟨s, ih r s [] hs, ?_⟩
      cases owned with
      | none => exact h
      | some f =>
        refine acquireAll_cons_ok.2 ⟨t, ?_, rfl⟩
        simp only at h
        split at h
        · cases h
        · next u hu => cases h; exact hu
  · rw [insertAll] at h
    rw [fragmentsOfAll, acquireAll_append_ok]
    split at h
    · cases h
    · next s hs => exact ⟨s, ihe r s hs, ihes s t _ h⟩

/-- A successful insertion acquires the fragments of the tree. -/
theorem acquireAll_of_insertElement {r t : Registry σ} {e : StyleElement}
    (h : r.insertElement e = (.ok (), t)) : r.acquireAll e.fragments = (.ok (), t) :=
  insertions_ok.1 e r t h

/-! ## Failed insertions -/

/-- Acquiring fragments fails with `err` at one of them. The classes of those in front of it are given
up again, together with those in `done`, in some order, and `t` is left. -/
def Abandons (r : Registry σ) (fs : List Fragment) (done : List ClassName) (err : RegistryError)
    (t : Registry σ) : Prop :=
  ∃ before f after s u names, fs = before ++ f :: after ∧ r.acquireAll before = (.ok (), s) ∧
    s.acquire f = (.error err, u) ∧ names.Perm (before.map Fragment.className ++ done) ∧
    t = u.relinquishAll names

namespace Abandons

variable {r s t : Registry σ} {fs gs : List Fragment} {done : List ClassName} {err : RegistryError}

/-- Fragments that are never reached. -/
theorem append (h : Abandons r fs done err t) (gs : List Fragment) :
    Abandons r (fs ++ gs) done err t := by
  obtain ⟨before, f, after, s, u, names, rfl, hs, hu, hp, ht⟩ := h
  exact ⟨before, f, after ++ gs, s, u, names, by simp, hs, hu, hp, ht⟩

/-- Fragments that are acquired first, and given up again with the others. -/
theorem after (hs : r.acquireAll gs = (.ok (), s))
    (h : Abandons s fs (gs.map Fragment.className ++ done) err t) :
    Abandons r (gs ++ fs) done err t := by
  obtain ⟨before, f, after, s', u, names, rfl, hs', hu, hp, ht⟩ := h
  refine ⟨gs ++ before, f, after, s', u, names, by simp, ?_, hu, hp.trans ?_, ht⟩
  · exact acquireAll_append_ok.2 ⟨s, hs, hs'⟩
  · rw [List.map_append, List.append_assoc]
    exact List.perm_append_comm_assoc _ _ _

/-- A walk that was abandoned is one in which the fragments cannot all be acquired. -/
theorem acquireAll (h : Abandons r fs done err t) : ∃ u, r.acquireAll fs = (.error err, u) := by
  obtain ⟨before, f, after, s, u, names, rfl, hs, hu, -, -⟩ := h
  refine ⟨u, ?_⟩
  clear t
  induction before generalizing r with
  | nil =>
    cases hs
    rw [List.nil_append, Registry.acquireAll, hu]
  | cons g before ih =>
    obtain ⟨q, hq, hs⟩ := acquireAll_cons_ok.1 hs
    rw [List.cons_append, Registry.acquireAll, hq]
    exact ih hs

/-- More classes are given up afterwards. -/
theorem relinquishAll (h : Abandons r fs [] err t) (done : List ClassName) :
    Abandons r fs done err (t.relinquishAll done) := by
  obtain ⟨before, f, after, s, u, names, hfs, hs, hu, hp, rfl⟩ := h
  rw [List.append_nil] at hp
  exact ⟨before, f, after, s, u, names ++ done, hfs, hs, hu, hp.append_right done,
    (relinquishAll_append u names done).symm⟩

end Abandons

/-- An insertion that fails has acquired fragments up to one that was refused, and has given up
their classes again. The induction is on the tree, for a list of siblings with those in front of
them: at a node the error comes from the children or from the fragment of the node itself, and among
siblings from the first one or from a later one. Each time the walk gives up what was acquired at
its own level, and a level further down has done so before. -/
theorem insertions_error :
    (∀ (e : StyleElement) (r t : Registry σ) (err : RegistryError),
      r.insertElement e = (.error err, t) → Abandons r e.fragments [] err t) ∧
    ∀ (es : List StyleElement) (r t : Registry σ) (done : List StyleElement) (err : RegistryError),
      r.insertAll done es = (.error err, t) →
        Abandons r (fragmentsOfAll es) (classNamesOfAll done) err t := by
  refine StyleElement.induct (fun cs owned ih r t err h => ?_) (fun r t done err h => ?_)
    fun e es ihe ihes r t done err h => ?_
  · rw [insertElement] at h
    rw [fragments]
    split at h
    · next u hu =>
      cases h
      exact (ih r t [] err hu).append _
    · next s hs =>
      have hcs : r.acquireAll (fragmentsOfAll cs) = (.ok (), s) := insertions_ok.2 cs r s [] hs
      cases owned with
      | none => cases h
      | some f =>
        simp only at h
        split at h
        · next u hu =>
          cases h
          refine ⟨fragmentsOfAll cs, f, [], s, u, classNamesOfAll cs.reverse, rfl, hcs, hu, ?_,
            removeAll_eq u _⟩
          rw [List.append_nil, fragmentsOfAll_classNames]
          exact classNamesOfAll_perm (List.reverse_perm cs)
        · cases h
  · cases h
  · rw [insertAll] at h
    rw [fragmentsOfAll]
    split at h
    · next u hu =>
      cases h
      rw [removeAll_eq]
      exact ((ihe r u err hu).relinquishAll _).append _
    · next s hs =>
      have hrest : Abandons s (fragmentsOfAll es) (classNamesOfAll (e :: done)) err t :=
        ihes s t (e :: done) err h
      rw [classNamesOfAll_cons] at hrest
      exact .after (insertions_ok.1 e r s hs) hrest

/-- A failed insertion acquires the fragments of the tree up to one that is refused, and gives up
again what it has acquired. -/
theorem abandons_of_insertElement {r t : Registry σ} {e : StyleElement} {err : RegistryError}
    (h : r.insertElement e = (.error err, t)) : Abandons r e.fragments [] err t :=
  insertions_error.1 e r t err h

/-! ## Giving up a class -/

/-- The entries with one reference less to a class. -/
def dropRef (m : OrderedMap ClassName RegistryEntry) (n : ClassName) :
    OrderedMap ClassName RegistryEntry :=
  match m.get? n with
  | none => m
  | some e => if 0 < e.count - 1 then m.set n { e with count := e.count - 1 } else m.erase n

/-- The handles that nobody refers to any more when a reference to a class goes. -/
def freed (m : OrderedMap ClassName RegistryEntry) (n : ClassName) : List Handle :=
  match m.get? n with
  | none => []
  | some e => if 0 < e.count - 1 then [] else e.handles

/-- What giving up a class does, field by field: the entries lose a reference, the sink gets the
handles back if it was the last one, and nothing else changes but the log. -/
theorem relinquish_eq (r : Registry σ) (n : ClassName) :
    ∃ log, r.relinquish n =
      { r with
        entries := dropRef r.entries n
        sink := Sink.retractAll r.sink (freed r.entries n)
        log := log } := by
  unfold relinquish dropRef freed
  cases hg : r.entries.get? n with
  | none => exact ⟨r.log, rfl⟩
  | some e =>
    by_cases hc : 0 < e.count - 1
    · simp only [if_pos hc]
      exact ⟨r.log, rfl⟩
    · simp only [if_neg hc]
      exact ⟨_, rfl⟩

@[simp] theorem relinquish_id (r : Registry σ) (n : ClassName) : (r.relinquish n).id = r.id := by
  obtain ⟨log, h⟩ := relinquish_eq r n
  rw [h]

@[simp] theorem relinquish_config (r : Registry σ) (n : ClassName) :
    (r.relinquish n).config = r.config := by
  obtain ⟨log, h⟩ := relinquish_eq r n
  rw [h]

@[simp] theorem relinquish_entries (r : Registry σ) (n : ClassName) :
    (r.relinquish n).entries = dropRef r.entries n := by
  obtain ⟨log, h⟩ := relinquish_eq r n
  rw [h]

@[simp] theorem relinquish_sink (r : Registry σ) (n : ClassName) :
    (r.relinquish n).sink = Sink.retractAll r.sink (freed r.entries n) := by
  obtain ⟨log, h⟩ := relinquish_eq r n
  rw [h]

/-- Giving up a class concerns no other. -/
theorem get?_dropRef_of_ne {m : OrderedMap ClassName RegistryEntry} {n n' : ClassName}
    (h : n' ≠ n) : (dropRef m n).get? n' = m.get? n' := by
  unfold dropRef
  split
  · rfl
  · split
    · rw [OrderedMap.get?_set, if_neg h]
    · rw [OrderedMap.get?_erase, if_neg h]

/-- Every entry that is left was there before, with the same handles, and has a reference if all
entries had one. -/
theorem of_get?_dropRef {m : OrderedMap ClassName RegistryEntry} {n n' : ClassName}
    {e : RegistryEntry} (h : (dropRef m n).get? n' = some e) :
    ∃ e', m.get? n' = some e' ∧ e.handles = e'.handles ∧ (0 < e'.count → 0 < e.count) := by
  by_cases hn : n' = n
  · subst hn
    unfold dropRef at h
    split at h
    · next hg =>
      rw [hg] at h
      cases h
    · next e' hg =>
      split at h
      · next hc =>
        rw [OrderedMap.get?_set, if_pos rfl] at h
        cases h
        exact ⟨e', hg, rfl, fun _ => hc⟩
      · rw [OrderedMap.get?_erase, if_pos rfl] at h
        cases h
  · rw [get?_dropRef_of_ne hn] at h
    exact ⟨e, h, rfl, fun hpos => hpos⟩

theorem freed_dropRef_of_ne {m : OrderedMap ClassName RegistryEntry} {n n' : ClassName}
    (h : n' ≠ n) : freed (dropRef m n) n' = freed m n' := by
  unfold freed
  rw [get?_dropRef_of_ne h]

/-- References to two classes can be dropped in either order, also where the classes are one. -/
theorem dropRef_comm (m : OrderedMap ClassName RegistryEntry) (n n' : ClassName) :
    dropRef (dropRef m n) n' = dropRef (dropRef m n') n := by
  by_cases h : n = n'
  · rw [h]
  · have h' : n' ≠ n := fun e => h e.symm
    have hn := get?_dropRef_of_ne (m := m) h
    have hn' := get?_dropRef_of_ne (m := m) h'
    conv_lhs => rw [dropRef]
    conv_rhs => rw [dropRef]
    rw [hn, hn']
    unfold dropRef
    cases hg : m.get? n with
    | none =>
      simp only
    | some e =>
      cases hg' : m.get? n' with
      | none => simp only
      | some e' =>
        have hk := OrderedMap.mem_keys_of_get? hg
        have hk' := OrderedMap.mem_keys_of_get? hg'
        by_cases hc : 0 < e.count - 1 <;> by_cases hc' : 0 < e'.count - 1 <;>
          simp only [hc, hc', if_true, if_false]
        · exact OrderedMap.set_comm h' _ _ hk' hk
        · exact OrderedMap.erase_set_comm h' m _
        · exact (OrderedMap.erase_set_comm h m _).symm
        · exact OrderedMap.erase_comm m n' n

end Registry

end ScopedCss
