import Mathlib.Data.List.ReduceOption
import ScopedCss.Proofs.Registry.Acquire
import ScopedCss.Proofs.Registry.Sharing
import ScopedCss.Proofs.Sink.Serving

/-!
# Moves of a registry

Walking the tree of an element, a registry does one of five things for each class that it meets
(`Move`), and each of them says which calls the sink gets: none where a live class is counted once
more or less, and otherwise the rules of a class or its handles, in order. Whatever a registry does
for an element is a list of such moves, and the sink gets the calls of these moves, one after the
other, and no others (`Does`).

A move only gives back handles that the entries have, or that it has just been given itself, and the
entries have the others afterwards. So the custody of the handles is kept.
-/

namespace ScopedCss

/-- What a registry does for a class. -/
inductive Move where
  /-- The class is live, and is counted once more. -/
  | join (f : Fragment)
  /-- The class becomes live. The sink is offered its rules, and gives these answers. -/
  | enter (f : Fragment) (answers : List (Option Handle))
  /-- The class does not become live. The sink takes some of its rules and refuses the next one, and
  gets the handles back. -/
  | refuse (f : Fragment) (taken : List Handle)
  /-- The class is counted once less, and stays live. -/
  | part (n : ClassName)
  /-- The class is not live any more, and its handles are given back. -/
  | leave (n : ClassName) (handles : List Handle)

namespace Move

/-- The calls on the sink that offer it some rules, as far as there are answers. -/
def offers (answers : List (Option Handle)) (rules : List StyleRule) : List SinkCall :=
  List.zipWith .add answers rules

/-- The calls on the sink. -/
def calls : Move → List SinkCall
  | .join _ | .part _ => []
  | .enter f answers => offers answers f.rules
  | .refuse f taken => offers (taken.map some ++ [none]) f.rules ++ taken.map .retract
  | .leave _ handles => handles.map .retract

/-- The fragment whose class is counted once more. -/
def acquired : Move → Option Fragment
  | .join f | .enter f _ => some f
  | _ => none

/-- The class that is counted once less. -/
def relinquished : Move → Option ClassName
  | .part n | .leave n _ => some n
  | _ => none

/-- Offering rules gives no handle back. -/
theorem retractedIn_offers (answers : List (Option Handle)) (rules : List StyleRule) :
    retractedIn (offers answers rules) = [] := by
  induction answers generalizing rules with
  | nil => rfl
  | cons a answers ih =>
    cases rules with
    | nil => rfl
    | cons rule rules => exact ih rules

/-- Every handle among the answers is one that the sink has issued. -/
theorem issuedIn_offers {answers : List (Option Handle)} {rules : List StyleRule}
    (h : answers.length ≤ rules.length) :
    (issuedIn (offers answers rules)).map Prod.fst = answers.reduceOption := by
  induction answers generalizing rules with
  | nil => rfl
  | cons a answers ih =>
    cases rules with
    | nil => cases h
    | cons rule rules =>
      have ih := ih (Nat.le_of_succ_le_succ h)
      cases a with
      | none => exact ih
      | some handle => exact congrArg (handle :: ·) ih

end Move

/-! ## What a move does to the entries -/

/-- A move leads from some entries to others. -/
inductive Moved (mode : InsertionMode) (m : OrderedMap ClassName RegistryEntry) :
    Move → OrderedMap ClassName RegistryEntry → Prop where
  | join {f : Fragment} {e : RegistryEntry} (live : m.get? f.className = some e) :
      Moved mode m (.join f) (m.set f.className { e with count := e.count + 1 })
  | enter {f : Fragment} {answers : List (Option Handle)} (new : m.get? f.className = none)
      (each : answers.length = f.rules.length) (strict : mode = .strict → none ∉ answers) :
      Moved mode m (.enter f answers) (m.set f.className ⟨1, answers.reduceOption⟩)
  | refuse {f : Fragment} {taken : List Handle} (new : m.get? f.className = none)
      (some_left : taken.length < f.rules.length) (strict : mode = .strict) :
      Moved mode m (.refuse f taken) m
  | part {n : ClassName} {e : RegistryEntry} (live : m.get? n = some e) (others : 1 < e.count) :
      Moved mode m (.part n) (m.set n { e with count := e.count - 1 })
  | leave {n : ClassName} {e : RegistryEntry} (live : m.get? n = some e) (last : e.count = 1) :
      Moved mode m (.leave n e.handles) (m.erase n)

/-- Moves lead from some entries to others, one after the other. -/
inductive Moves (mode : InsertionMode) : OrderedMap ClassName RegistryEntry → List Move →
    OrderedMap ClassName RegistryEntry → Prop where
  | nil (m : OrderedMap ClassName RegistryEntry) : Moves mode m [] m
  | cons {m m' m'' : OrderedMap ClassName RegistryEntry} {mv : Move} {ms : List Move}
      (head : Moved mode m mv m') (tail : Moves mode m' ms m'') : Moves mode m (mv :: ms) m''

theorem Moves.append {mode : InsertionMode} {m m' m'' : OrderedMap ClassName RegistryEntry}
    {ms ns : List Move} (h : Moves mode m ms m') (h' : Moves mode m' ns m'') :
    Moves mode m (ms ++ ns) m'' := by
  induction h with
  | nil m => exact h'
  | cons head _ ih => exact .cons head (ih h')

/-! ## Handles of the entries -/

/-- The handles in the entries, class by class. -/
def handlesOf (m : OrderedMap ClassName RegistryEntry) : List Handle :=
  m.values.flatMap RegistryEntry.handles

theorem handlesOf_eq (m : OrderedMap ClassName RegistryEntry) :
    handlesOf m = m.toList.flatMap fun p => p.2.handles := List.flatMap_map ..

/-- Counting a class once more or less moves no handles. -/
theorem handlesOf_set_count {m : OrderedMap ClassName RegistryEntry} {n : ClassName}
    {e : RegistryEntry} (h : m.get? n = some e) (k : Nat) :
    handlesOf (m.set n { e with count := k }) = handlesOf m := by
  have hpairs : ∀ ps : List (ClassName × RegistryEntry), Pairs.get? n ps = some e →
      ((Pairs.set n { e with count := k } ps).flatMap fun p => p.2.handles) =
        ps.flatMap fun p => p.2.handles := by
    intro ps
    induction ps with
    | nil =>
      intro hg
      cases hg
    | cons p ps ih =>
      intro hg
      rw [Pairs.get?] at hg
      rw [Pairs.set]
      split at hg
      · next hp =>
        cases hg
        rw [if_pos hp, List.flatMap_cons, List.flatMap_cons]
      · next hp => rw [if_neg hp, List.flatMap_cons, List.flatMap_cons, ih hg]
  rw [handlesOf_eq, handlesOf_eq]
  exact hpairs m.toList h

theorem handlesOf_set_new {m : OrderedMap ClassName RegistryEntry} {n : ClassName}
    (h : m.get? n = none) (e : RegistryEntry) : handlesOf (m.set n e) = handlesOf m ++ e.handles := by
  have hset : (m.set n e).toList = m.toList ++ [(n, e)] :=
    Pairs.set_of_notMem e (Pairs.get?_eq_none_iff.1 h)
  rw [handlesOf_eq, handlesOf_eq, hset, List.flatMap_append, List.flatMap_singleton]

theorem handlesOf_perm_erase {m : OrderedMap ClassName RegistryEntry} {n : ClassName}
    {e : RegistryEntry} (h : m.get? n = some e) :
    (handlesOf m).Perm (e.handles ++ handlesOf (m.erase n)) := by
  rw [handlesOf_eq, handlesOf_eq]
  exact (Pairs.perm_cons_erase m.nodup_keys h).flatMap_right _

/-- A move keeps the custody of the handles: the entries have them, and somebody else has the
others. -/
theorem Moved.custody {mode : InsertionMode} {m m' : OrderedMap ClassName RegistryEntry} {mv : Move}
    (h : Moved mode m mv m') {calls : List SinkCall} {others : List Handle}
    (hc : Custody calls (handlesOf m ++ others)) :
    Custody (calls ++ mv.calls) (handlesOf m' ++ others) := by
  cases h with
  | join live =>
    rw [Move.calls, List.append_nil, handlesOf_set_count live]
    exact hc
  | @enter f answers new each _ =>
    rw [Move.calls, handlesOf_set_new new, List.append_assoc]
    have htake := hc.take (Move.retractedIn_offers answers f.rules) (Move.issuedIn_offers each.le)
    exact htake.perm (List.perm_append_comm_assoc _ _ _)
  | @refuse f taken _ some_left _ =>
    have hlen : (taken.map some ++ [none]).length ≤ f.rules.length := by
      rw [List.length_append, List.length_map]
      exact some_left
    have hreduce : (taken.map some ++ [none]).reduceOption = taken := by
      simp [List.reduceOption]
    have htake := hc.take (Move.retractedIn_offers _ f.rules) (Move.issuedIn_offers hlen)
    rw [hreduce] at htake
    rw [Move.calls, ← List.append_assoc]
    exact htake.giveBack (.refl _)
  | part live _ =>
    rw [Move.calls, List.append_nil, handlesOf_set_count live]
    exact hc
  | @leave n e live _ =>
    refine hc.giveBack ?_
    rw [← List.append_assoc]
    exact (handlesOf_perm_erase live).append_right others

/-- The custody of the handles goes through a list of moves: whatever the entries have no more has
been given back. -/
theorem Moves.custody {mode : InsertionMode} {m m' : OrderedMap ClassName RegistryEntry}
    {ms : List Move} (h : Moves mode m ms m') {calls : List SinkCall} {others : List Handle}
    (hc : Custody calls (handlesOf m ++ others)) :
    Custody (calls ++ ms.flatMap Move.calls) (handlesOf m' ++ others) := by
  induction h generalizing calls with
  | nil m =>
    rw [List.flatMap_nil, List.append_nil]
    exact hc
  | cons head _ ih =>
    rw [List.flatMap_cons, ← List.append_assoc]
    exact ih (head.custody hc)

namespace Registry

open StyleElement

variable {σ : Type} [Sink σ]

/-- The second registry comes from the first by some moves, and the sink gets the calls of these
moves and no others. -/
structure Does (r t : Registry σ) (ms : List Move) : Prop where
  moves : Moves r.config.mode r.entries ms t.entries
  serves : Serves r.sink (ms.flatMap Move.calls) t.sink
  config : t.config = r.config

namespace Does

variable {r s t : Registry σ} {ms ns : List Move}

theorem refl (r : Registry σ) : Does r r [] := ⟨.nil _, .nil _, rfl⟩

theorem single {mv : Move} (hmoved : Moved r.config.mode r.entries mv t.entries)
    (hserves : Serves r.sink mv.calls t.sink) (hconfig : t.config = r.config) : Does r t [mv] := by
  refine ⟨.cons hmoved (.nil _), ?_, hconfig⟩
  rw [List.flatMap_singleton]
  exact hserves

theorem trans (h : Does r s ms) (h' : Does s t ns) : Does r t (ms ++ ns) := by
  have hmoves := h'.moves
  rw [h.config] at hmoves
  refine ⟨h.moves.append hmoves, ?_, h'.config.trans h.config⟩
  rw [List.flatMap_append]
  exact h.serves.append h'.serves

end Does

/-! ## Acquiring -/

/-- Every rule is offered once, and the handles that the sink gives out are kept, in order. -/
theorem addRules_ok_serves {r t : Registry σ} {taken handles : List Handle} {rules : List StyleRule}
    (h : r.addRules taken rules = (.ok handles, t)) :
    ∃ answers : List (Option Handle), answers.length = rules.length ∧
      (r.config.mode = .strict → none ∉ answers) ∧ handles = taken ++ answers.reduceOption ∧
      Serves r.sink (Move.offers answers rules) t.sink := by
  induction rules generalizing r taken with
  | nil =>
    cases h
    exact ⟨[], rfl, fun _ => List.not_mem_nil, (List.append_nil _).symm, .nil _⟩
  | cons rule rules ih =>
    rw [addRules] at h
    split at h
    · next handle s hadd =>
      obtain ⟨answers, hlen, hstrict, hhandles, hserves⟩ := ih h
      refine ⟨some handle :: answers, congrArg (· + 1) hlen, fun hm hmem => ?_, ?_, .add hadd hserves⟩
      · exact hstrict hm ((List.mem_cons.1 hmem).resolve_left fun e => by cases e)
      · rw [hhandles, List.reduceOption_cons_of_some, List.append_assoc]
        rfl
    · next e s hadd =>
      split at h
      · cases h
      · next hmode =>
        obtain ⟨answers, hlen, -, hhandles, hserves⟩ := ih h
        refine ⟨none :: answers, congrArg (· + 1) hlen, fun hm => ?_, hhandles, .add hadd hserves⟩
        rw [hmode] at hm
        cases hm

/-- Rules are offered up to the first that is refused, and the handles are given back in order. -/
theorem addRules_error_serves {r t : Registry σ} {taken : List Handle} {rules : List StyleRule}
    {err : RegistryError} (h : r.addRules taken rules = (.error err, t)) :
    ∃ got : List Handle, rules[got.length]? = some err.rule ∧
      Serves r.sink (Move.offers (got.map some ++ [none]) rules ++ (taken ++ got).map .retract)
        t.sink := by
  induction rules generalizing r taken with
  | nil => cases h
  | cons rule rules ih =>
    rw [addRules] at h
    split at h
    · next handle s hadd =>
      obtain ⟨got, hrule, hserves⟩ := ih h
      rw [List.append_assoc] at hserves
      exact ⟨handle :: got, hrule, .add hadd hserves⟩
    · next e s hadd =>
      split at h
      · cases h
        refine ⟨[], rfl, ?_⟩
        rw [List.append_nil]
        exact .add hadd (.retractAll s taken)
      · next hmode =>
        have hstrict := strict_of_addRules_error h
        rw [note, hmode] at hstrict
        cases hstrict

/-- An acquired fragment is one move, which either joins a live class or makes it live. -/
theorem acquire_ok_does {r t : Registry σ} {f : Fragment} (h : r.acquire f = (.ok (), t)) :
    ∃ mv : Move, mv.acquired = some f ∧ Does r t [mv] := by
  rw [acquire] at h
  split at h
  · next e live =>
    cases h
    exact ⟨.join f, rfl, .single (.join live) (.nil _) rfl⟩
  · next new =>
    obtain ⟨hframe, hentries⟩ := addRules_frame r [] f.rules
    split at h
    · cases h
    · next handles s hs =>
      rw [hs] at hframe hentries
      cases h
      obtain ⟨answers, hlen, hstrict, rfl, hserves⟩ := addRules_ok_serves hs
      refine ⟨.enter f answers, rfl, .single ?_ hserves hframe.config⟩
      show Moved _ _ _ (s.entries.set _ _)
      rw [hentries]
      exact .enter new hlen hstrict

/-- A fragment that is not acquired is one move as well: the sink refuses the rule that the error
names, and has back what it took before it. -/
theorem acquire_error_does {r t : Registry σ} {f : Fragment} {err : RegistryError}
    (h : r.acquire f = (.error err, t)) :
    ∃ taken : List Handle, f.rules[taken.length]? = some err.rule ∧ Does r t [.refuse f taken] := by
  rw [acquire] at h
  split at h
  · cases h
  · next new =>
    obtain ⟨hframe, hentries⟩ := addRules_frame r [] f.rules
    split at h
    · next hs =>
      rw [hs] at hframe hentries
      cases h
      obtain ⟨taken, hrule, hserves⟩ := addRules_error_serves hs
      refine ⟨taken, hrule, .single ?_ hserves hframe.config⟩
      rw [hentries]
      exact .refuse new (List.getElem?_eq_some_iff.1 hrule).1 (strict_of_addRules_error hs)
    · cases h

/-- Acquiring fragments in order makes a move for each of them, in this order. -/
theorem acquireAll_does {r t : Registry σ} {fs : List Fragment}
    (h : r.acquireAll fs = (.ok (), t)) :
    ∃ ms : List Move, ms.map Move.acquired = fs.map some ∧ Does r t ms := by
  induction fs generalizing r with
  | nil =>
    cases h
    exact ⟨[], rfl, .refl t⟩
  | cons f fs ih =>
    obtain ⟨s, hs, h⟩ := acquireAll_cons_ok.1 h
    obtain ⟨mv, hmv, hfirst⟩ := acquire_ok_does hs
    obtain ⟨ms, hms, hrest⟩ := ih h
    refine ⟨mv :: ms, ?_, hfirst.trans hrest⟩
    rw [List.map_cons, List.map_cons, hmv, hms]

/-! ## Giving up -/

/-- Giving up a class that is tallied is one move, which either leaves the class live or gives its
handles back. -/
theorem relinquish_does {r : Registry σ} {n : ClassName} {ns : List ClassName}
    (h : Tallies r (n :: ns)) :
    ∃ mv : Move, mv.relinquished = some n ∧ Does r (r.relinquish n) [mv] := by
  obtain ⟨e, live, hcount⟩ := h.entry List.mem_cons_self
  rw [List.count_cons_self] at hcount
  have hentries := relinquish_entries r n
  have hsink := relinquish_sink r n
  rw [dropRef, live] at hentries
  rw [freed, live] at hsink
  by_cases hc : 0 < e.count - 1
  · simp only [if_pos hc] at hentries hsink
    refine ⟨.part n, rfl, .single ?_ ?_ (relinquish_config r n)⟩
    · rw [hentries]
      exact .part live (by omega)
    · rw [hsink]
      exact .nil _
  · simp only [if_neg hc] at hentries hsink
    refine ⟨.leave n e.handles, rfl, .single ?_ ?_ (relinquish_config r n)⟩
    · rw [hentries]
      exact .leave live (by omega)
    · rw [hsink]
      exact .retractAll r.sink e.handles

/-- Giving up tallied classes makes a move for each name, in order. -/
theorem relinquishAll_does {r : Registry σ} {ns rest : List ClassName}
    (h : Tallies r (ns ++ rest)) :
    ∃ ms : List Move, ms.map Move.relinquished = ns.map some ∧ Does r (r.relinquishAll ns) ms := by
  induction ns generalizing r with
  | nil => exact ⟨[], rfl, .refl r⟩
  | cons n ns ih =>
    obtain ⟨mv, hmv, hfirst⟩ := relinquish_does h
    obtain ⟨ms, hms, hrest⟩ := ih (Tallies.relinquish h).2
    refine ⟨mv :: ms, ?_, hfirst.trans hrest⟩
    rw [List.map_cons, List.map_cons, hmv, hms]

/-! ## Inserting -/

/-- The moves of an insertion with some outcome. -/
inductive Inserts {α : Type} (fs : List Fragment) : List Move → Except RegistryError α → Prop where
  /-- The fragments are acquired in order. -/
  | done {ms : List Move} {a : α} (ups : ms.map Move.acquired = fs.map some) : Inserts fs ms (.ok a)
  /-- Fragments are acquired in order up to one with the refused rule, and their classes are given up
  again. -/
  | undone {before after : List Fragment} {f : Fragment} {ups downs : List Move}
      {taken : List Handle} {err : RegistryError} (reached : fs = before ++ f :: after)
      (ups_eq : ups.map Move.acquired = before.map some)
      (rule_eq : f.rules[taken.length]? = some err.rule)
      (downs_perm : (downs.map Move.relinquished).Perm (before.map fun f => some f.className)) :
      Inserts fs (ups ++ .refuse f taken :: downs) (.error err)

/-- What the sink hears of an inserted element: the fragments are acquired in order, and where one
of them is refused, those in front of it are given up again. -/
theorem insertElement_does {r : Registry σ} {ns : List ClassName} (h : Tallies r ns)
    (e : StyleElement) :
    ∃ ms : List Move, Inserts e.fragments ms (r.insertElement e).1 ∧
      Does r (r.insertElement e).2 ms := by
  rcases he : r.insertElement e with ⟨err | ⟨⟩, t⟩
  · obtain ⟨before, f, after, s, u, names, hfs, hs, hu, hp, rfl⟩ := abandons_of_insertElement he
    rw [List.append_nil] at hp
    obtain ⟨ups, hups, hup⟩ := acquireAll_does hs
    obtain ⟨taken, hrule, hrefuse⟩ := acquire_error_does hu
    -- What has been acquired is tallied, so undoing finds a reference for each of the names.
    have hs' : Tallies s (names ++ ns) := (h.acquireAll_ok hs).perm (hp.symm.append_right ns)
    obtain ⟨downs, hdowns, hdown⟩ := relinquishAll_does (hs'.of_entries (acquire_error_entries hu))
    have hback : (downs.map Move.relinquished).Perm (before.map fun f => some f.className) := by
      have hsome := hp.map some
      rw [List.map_map, ← hdowns] at hsome
      exact hsome
    exact ⟨_, .undone hfs hups hrule hback, hup.trans (hrefuse.trans hdown)⟩
  · obtain ⟨ms, hms, hdoes⟩ := acquireAll_does (acquireAll_of_insertElement he)
    exact ⟨ms, .done hms, hdoes⟩

/-- The moves of an insertion, as it answers to the client. -/
theorem insert_does {r : Registry σ} {ns : List ClassName} (h : Tallies r ns) (e : StyleElement) :
    ∃ ms : List Move, Inserts e.fragments ms (r.insert e).1 ∧ Does r (r.insert e).2 ms := by
  obtain ⟨ms, hms, hdoes⟩ := insertElement_does h e
  rw [insert]
  rcases he : r.insertElement e with ⟨err | ⟨⟩, t⟩
  · rw [he] at hms hdoes
    cases hms with
    | undone reached ups_eq rule_eq downs_perm =>
      exact ⟨_, .undone reached ups_eq rule_eq downs_perm, hdoes⟩
  · rw [he] at hms hdoes
    cases hms with
    | done ups => exact ⟨ms, .done ups, hdoes⟩

/-! ## Rules without a class -/

/-- A global rule is offered once, and its registration has the handle. -/
theorem insertGlobal_serves (r : Registry σ) (rule : StyleRule) :
    ∃ handle : Option Handle,
      Serves r.sink [.addGlobal handle rule] (r.insertGlobal rule).2.sink ∧
      (∀ reg, (r.insertGlobal rule).1 = .ok reg → reg.handle = handle) ∧
      ∀ err, (r.insertGlobal rule).1 = .error err → handle = none := by
  rw [insertGlobal]
  rcases hadd : Sink.addGlobal r.sink rule with ⟨e | handle, s⟩
  · refine ⟨none, ?_⟩
    cases r.config.mode with
    | strict =>
      refine ⟨.addGlobal hadd (.nil s), fun reg h => ?_, fun _ _ => rfl⟩
      cases h
    | relaxed =>
      refine ⟨.addGlobal hadd (.nil s), fun reg h => ?_, fun _ _ => rfl⟩
      cases h
      rfl
  · refine ⟨some handle, .addGlobal hadd (.nil s), fun reg h => ?_, fun err h => ?_⟩
    · cases h
      rfl
    · cases h

/-- A rule that belongs to no class is given back by one call, unless the registration is of another
registry or the rule was never taken. -/
theorem releaseGlobal_serves (r : Registry σ) (reg : GlobalRegistration) :
    Serves r.sink ((if reg.registry = r.id then reg.handle.toList else []).map .retract)
      (r.releaseGlobal reg).sink := by
  obtain ⟨id, rule, handle⟩ := reg
  rw [releaseGlobal]
  split
  · cases handle with
    | none => exact .nil _
    | some handle => exact .retract (.nil _)
  · exact .nil _

/-! ## Without a call -/

/-- Giving up a class raises no count. -/
theorem refCount_relinquish_le (r : Registry σ) (n m : ClassName) :
    (r.relinquish n).refCount m ≤ r.refCount m := by
  rw [refCount, refCount, relinquish_entries]
  by_cases hm : m = n
  · subst hm
    unfold dropRef
    split
    · exact le_rfl
    · next e he =>
      rw [he]
      split
      · rw [OrderedMap.get?_set, if_pos rfl]
        exact Nat.sub_le e.count 1
      · rw [OrderedMap.get?_erase, if_pos rfl]
        exact Nat.zero_le _
  · rw [get?_dropRef_of_ne hm]

theorem refCount_relinquishAll_le (r : Registry σ) (ns : List ClassName) (m : ClassName) :
    (r.relinquishAll ns).refCount m ≤ r.refCount m := by
  induction ns generalizing r with
  | nil => exact le_rfl
  | cons n ns ih => exact (ih (r.relinquish n)).trans (refCount_relinquish_le r n m)

/-- A class that is still live has given nothing back. -/
theorem relinquish_sink_of_live {r : Registry σ} {n : ClassName}
    (h : 0 < (r.relinquish n).refCount n) : (r.relinquish n).sink = r.sink := by
  have hfreed : freed r.entries n = [] := by
    rw [refCount, relinquish_entries, dropRef] at h
    unfold freed
    split
    · rfl
    · next e he =>
      rw [he] at h
      split
      · rfl
      · next hc =>
        simp only [if_neg hc] at h
        rw [OrderedMap.get?_erase, if_pos rfl] at h
        cases h
  rw [relinquish_sink, hfreed]
  rfl

/-- Giving up classes that are still live afterwards is no concern of the sink. -/
theorem relinquishAll_live {r : Registry σ} {ns : List ClassName}
    (h : ∀ n ∈ ns, 0 < (r.relinquishAll ns).refCount n) : (r.relinquishAll ns).sink = r.sink := by
  induction ns generalizing r with
  | nil => rfl
  | cons n ns ih =>
    obtain ⟨hn, hns⟩ := List.forall_mem_cons.1 h
    have hfirst := relinquish_sink_of_live (hn.trans_le (refCount_relinquishAll_le _ ns n))
    exact (ih hns).trans hfirst

end Registry

end ScopedCss
