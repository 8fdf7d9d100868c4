import ScopedCss.Proofs.Registry.Counts
import ScopedCss.Proofs.Sink.Listing
import ScopedCss.Registry.Client

/-!
# Insertion is flattening without duplicates

An insertion walks a tree, asks the entries about each class that it meets, and changes them and the
sink while it goes on. What comes of it can be said without the walk: flatten the tree to its
fragments, children first, leave out the classes that are live, and of each class that is left keep
the first fragment. The accepted rules of these are appended to the sink, in this order, and their
handles go to the entries of their classes; beyond that, every class counts its occurrences.

`Flattened` is this reference for any list of fragments. It is kept in step with the walk fragment by
fragment, where the class of the first one is either live, and then left out everywhere, or becomes
live, and then comes first.
-/

namespace ScopedCss

namespace Fragment

/-- Keeps the first fragment of each class. -/
def firstOfEach : List Fragment → List Fragment
  | [] => []
  | f :: fs => f :: (firstOfEach fs).filter fun g => g.className ≠ f.className

theorem firstOfEach_sublist (fs : List Fragment) : (firstOfEach fs).Sublist fs := by
  induction fs with
  | nil => exact .slnil
  | cons f fs ih => exact (List.filter_sublist.trans ih).cons_cons f

/-- Whole classes can be left out before or after. -/
theorem firstOfEach_filter (p : ClassName → Bool) (fs : List Fragment) :
    firstOfEach (fs.filter fun f => p f.className) =
      (firstOfEach fs).filter fun f => p f.className := by
  induction fs with
  | nil => rfl
  | cons f fs ih =>
    rw [firstOfEach, List.filter_cons, List.filter_cons, List.filter_filter]
    by_cases hf : p f.className = true
    · rw [if_pos hf, if_pos hf, firstOfEach, ih, List.filter_filter]
      simp only [Bool.and_comm]
    · rw [if_neg hf, if_neg hf, ih]
      refine List.filter_congr fun g _ => ?_
      by_cases hg : g.className = f.className
      · simp [hg, hf]
      · simp [hg]

end Fragment

namespace Registry

open LawfulSink ListingSink HeldRules

variable {σ : Type}

/-- The fragments whose rules are new to the registry: the first one of each class that has no
entry. -/
def newFragments (r : Registry σ) (fs : List Fragment) : List Fragment :=
  Fragment.firstOfEach (fs.filter fun f => !r.contains f.className)

theorem contains_of_mem_newFragments {r : Registry σ} {fs : List Fragment} {f : Fragment}
    (h : f ∈ r.newFragments fs) : r.contains f.className = false := by
  have hf := (List.mem_filter.1 ((Fragment.firstOfEach_sublist _).subset h)).2
  simpa using hf

/-- A live class is left out. -/
theorem newFragments_cons_of_contains {r s : Registry σ} {f : Fragment} (fs : List Fragment)
    (hf : r.contains f.className = true) (hs : ∀ n, s.contains n = r.contains n) :
    r.newFragments (f :: fs) = s.newFragments fs := by
  simp [newFragments, hf, hs]

/-- A class that becomes live comes first, and is left out from then on. -/
theorem newFragments_cons_of_not_contains {r s : Registry σ} {f : Fragment} (fs : List Fragment)
    (hf : r.contains f.className = false)
    (hs : ∀ n, s.contains n = (r.contains n || decide (n = f.className))) :
    r.newFragments (f :: fs) = f :: s.newFragments fs := by
  have hrest : (fs.filter fun g => !s.contains g.className) =
      (fs.filter fun g => !r.contains g.className).filter
        fun g => decide (g.className ≠ f.className) := by
    rw [List.filter_filter]
    refine List.filter_congr fun g _ => ?_
    rw [hs]
    by_cases hg : g.className = f.className <;> simp [hg]
  rw [newFragments, newFragments, hrest, List.filter_cons, if_pos (by simp [hf]),
    Fragment.firstOfEach_filter fun n => decide (n ≠ f.className), Fragment.firstOfEach]

variable [Sink σ] [LawfulSink σ] [ListingSink σ]

/-- Each fragment with the rules that the sink takes of it, numbered from `n` on throughout. -/
def allot (s : σ) (n : Nat) : List Fragment → List (Fragment × HeldRules)
  | [] => []
  | f :: fs => (f, numbered n (accepted s f)) :: allot s (n + (accepted s f).length) fs

/-- Handles are allotted to none but the given fragments. -/
theorem fst_mem_of_mem_allot {s : σ} {n : Nat} {fs : List Fragment} {p : Fragment × HeldRules}
    (h : p ∈ allot s n fs) : p.1 ∈ fs := by
  induction fs generalizing n with
  | nil => cases h
  | cons f fs ih =>
    rcases List.mem_cons.1 h with rfl | h
    · exact List.mem_cons_self
    · exact List.mem_cons_of_mem f (ih h)

/-- What is allotted depends on the sink by nothing but the texts that it accepts. -/
theorem allot_congr {s t : σ} (h : accepts t = accepts s) (n : Nat) (fs : List Fragment) :
    allot t n fs = allot s n fs := by
  have hacc : ∀ f, accepted t f = accepted s f := by
    intro f
    rw [accepted, accepted, h]
  induction fs generalizing n with
  | nil => rfl
  | cons f fs ih => rw [allot, allot, hacc, ih]

theorem flatMap_allot (s : σ) (n : Nat) (fs : List Fragment) :
    (allot s n fs).flatMap Prod.snd = numbered n (fs.flatMap (accepted s)) := by
  induction fs generalizing n with
  | nil => rfl
  | cons f fs ih => rw [allot, List.flatMap_cons, ih, List.flatMap_cons, numbered_append]

/-! ## One class -/

/-- Offering rules to a listing sink, if that ends well. -/
theorem addRules_listed {r t : Registry σ} {taken handles : List Handle} {rules : List StyleRule}
    (h : r.addRules taken rules = (.ok handles, t)) :
    let acc := rules.filter fun rule => accepts r.sink rule.text
    handles = taken ++ (numbered (next r.sink) acc).map Prod.fst ∧ Listed r.sink acc t.sink ∧
      (r.config.mode = .strict → acc = rules) := by
  induction rules generalizing r taken with
  | nil =>
    cases h
    exact ⟨(List.append_nil _).symm, .refl _, fun _ => rfl⟩
  | cons rule rules ih =>
    cases hacc : accepts r.sink rule.text with
    | true =>
      obtain ⟨handle, s, hadd⟩ := add_of_accepts hacc
      obtain ⟨rfl, hone⟩ := Listed.of_add hadd
      rw [addRules, hadd] at h
      obtain ⟨hhandles, hlisted, hstrict⟩ := ih h
      simp only [hone.accepts, hone.next] at hhandles hlisted hstrict
      simp only [List.filter_cons, hacc, if_true]
      refine ⟨?_, hone.trans hlisted, fun hm => congrArg (rule :: ·) (hstrict hm)⟩
      rw [hhandles, List.append_assoc]
      rfl
    | false =>
      obtain ⟨e, hadd⟩ := add_of_refuses hacc
      rw [addRules, hadd] at h
      simp only [List.filter_cons, hacc]
      cases hm : r.config.mode with
      | strict =>
        simp only [hm] at h
        cases h
      | relaxed =>
        simp only [hm] at h
        obtain ⟨hhandles, hlisted, -⟩ := ih h
        exact ⟨hhandles, hlisted, fun hs => by cases hs⟩

/-- The two outcomes of acquiring a class over a listing sink, if it is not refused. -/
theorem acquire_listed {r t : Registry σ} {f : Fragment} (h : r.acquire f = (.ok (), t)) :
    (∃ e, r.entries.get? f.className = some e ∧ t.sink = r.sink ∧
      t.entries = r.entries.set f.className { e with count := e.count + 1 }) ∨
    (r.entries.get? f.className = none ∧ Listed r.sink (accepted r.sink f) t.sink ∧
      (r.config.mode = .strict → accepted r.sink f = f.rules) ∧
      t.entries = r.entries.set f.className
        ⟨1, (numbered (next r.sink) (accepted r.sink f)).map Prod.fst⟩) := by
  rw [acquire] at h
  split at h
  · next e he =>
    cases h
    exact .inl ⟨e, he, rfl, rfl⟩
  · next he =>
    have hframe := (addRules_frame r [] f.rules).2
    split at h
    · cases h
    · next handles s hs =>
      cases h
      rw [hs] at hframe
      obtain ⟨hhandles, hlisted, hstrict⟩ := addRules_listed hs
      refine .inr ⟨he, hlisted, hstrict, ?_⟩
      rw [hhandles]
      exact congrArg (OrderedMap.set · f.className _) hframe

/-! ## Several classes -/

/-- How often the name of a class occurs among fragments. -/
def occurrencesAmong (fs : List Fragment) (n : ClassName) : Nat :=
  (fs.map Fragment.className).count n

theorem occurrencesAmong_cons_self (f : Fragment) (fs : List Fragment) :
    occurrencesAmong (f :: fs) f.className = occurrencesAmong fs f.className + 1 :=
  List.count_cons_self

theorem occurrencesAmong_cons_of_ne {f : Fragment} {n : ClassName} (h : n ≠ f.className)
    (fs : List Fragment) : occurrencesAmong (f :: fs) n = occurrencesAmong fs n :=
  List.count_cons_of_ne (Ne.symm h)

/-- The registry `t` is what `r` becomes when the fragments `fs` are acquired, by the account of
those that are new to it. -/
structure Flattened (r : Registry σ) (fs : List Fragment) (t : Registry σ) : Prop where
  /-- The sink takes the accepted rules of the new fragments, and nothing else. -/
  listed : Listed r.sink ((r.newFragments fs).flatMap (accepted r.sink)) t.sink
  /-- In strict mode these are all of their rules. -/
  strict : r.config.mode = .strict → ∀ f ∈ r.newFragments fs, accepted r.sink f = f.rules
  /-- A new class has the handles of its accepted rules. -/
  entered : ∀ p ∈ allot r.sink (next r.sink) (r.newFragments fs),
    t.entries.get? p.1.className = some ⟨occurrencesAmong fs p.1.className, p.2.map Prod.fst⟩
  /-- Any other class has the handles that it had, and there is no other entry. -/
  kept : ∀ n, n ∉ (r.newFragments fs).map Fragment.className → t.entries.get? n =
    (r.entries.get? n).map fun e => { e with count := e.count + occurrencesAmong fs n }

namespace Flattened

variable {r s t : Registry σ} {f : Fragment} {fs : List Fragment}

theorem nil (r : Registry σ) : Flattened r [] r := by
  refine ⟨.refl _, fun _ f hf => ?_, fun p hp => ?_, fun n _ => ?_⟩
  · cases hf
  · cases hp
  · cases r.entries.get? n <;> rfl

/-- One more reference to a live class, and then other fragments. -/
theorem cons_live (h : Flattened s fs t) {e : RegistryEntry}
    (hlive : r.entries.get? f.className = some e) (hconfig : s.config = r.config)
    (hsink : s.sink = r.sink)
    (hentries : s.entries = r.entries.set f.className { e with count := e.count + 1 }) :
    Flattened r (f :: fs) t := by
  have hcontains : ∀ n, s.contains n = r.contains n := by
    intro n
    rw [contains, contains, OrderedMap.contains, OrderedMap.contains, hentries, OrderedMap.get?_set]
    by_cases hn : n = f.className
    · rw [if_pos hn, hn, hlive]
      rfl
    · rw [if_neg hn]
  have hf : r.contains f.className = true := by rw [contains, OrderedMap.contains, hlive]; rfl
  have hnew : r.newFragments (f :: fs) = s.newFragments fs :=
    newFragments_cons_of_contains fs hf hcontains
  refine ⟨?_, ?_, fun p hp => ?_, fun n hn => ?_⟩
  · rw [hnew, ← hsink]
    exact h.listed
  · rw [hnew, ← hsink, ← hconfig]
    exact h.strict
  · rw [hnew, ← hsink] at hp
    have hp' := contains_of_mem_newFragments (fst_mem_of_mem_allot hp)
    have hne : p.1.className ≠ f.className := by
      intro e
      rw [hcontains, e, hf] at hp'
      cases hp'
    rw [occurrencesAmong_cons_of_ne hne]
    exact h.entered p hp
  · rw [hnew] at hn
    rw [h.kept n hn, hentries, OrderedMap.get?_set]
    by_cases hname : n = f.className
    · subst hname
      rw [if_pos rfl, hlive, occurrencesAmong_cons_self]
      simp only [Option.map_some, Nat.add_assoc, Nat.add_comm 1]
    · rw [if_neg hname, occurrencesAmong_cons_of_ne hname]

/-- A class becomes live, and then other fragments come. -/
theorem cons_new (h : Flattened s fs t) (hnone : r.entries.get? f.className = none)
    (hconfig : s.config = r.config) (hlisted : Listed r.sink (accepted r.sink f) s.sink)
    (hstrict : r.config.mode = .strict → accepted r.sink f = f.rules)
    (hentries : s.entries = r.entries.set f.className
      ⟨1, (numbered (next r.sink) (accepted r.sink f)).map Prod.fst⟩) :
    Flattened r (f :: fs) t := by
  have hcontains : ∀ n, s.contains n = (r.contains n || decide (n = f.className)) := by
    intro n
    rw [contains, contains, OrderedMap.contains, OrderedMap.contains, hentries, OrderedMap.get?_set]
    by_cases hn : n = f.className <;> simp [hn]
  have hf : r.contains f.className = false := by rw [contains, OrderedMap.contains, hnone]; rfl
  have hnew : r.newFragments (f :: fs) = f :: s.newFragments fs :=
    newFragments_cons_of_not_contains fs hf hcontains
  have haccepted : ∀ g, accepted s.sink g = accepted r.sink g := by
    intro g
    rw [accepted, accepted, hlisted.accepts]
  have hallot : allot r.sink (next r.sink + (accepted r.sink f).length) (s.newFragments fs) =
      allot s.sink (next s.sink) (s.newFragments fs) := by
    rw [allot_congr hlisted.accepts, hlisted.next]
  have hne : ∀ g ∈ s.newFragments fs, g.className ≠ f.className := by
    intro g hg e
    have hg' := contains_of_mem_newFragments hg
    rw [hcontains, e] at hg'
    simp at hg'
  refine ⟨?_, fun hm g hg => ?_, fun p hp => ?_, fun n hn => ?_⟩
  · have hrest := h.listed
    rw [funext haccepted] at hrest
    rw [hnew, List.flatMap_cons]
    exact hlisted.trans hrest
  · rw [hnew] at hg
    rcases List.mem_cons.1 hg with rfl | hg
    · exact hstrict hm
    · rw [← haccepted]
      exact h.strict (hconfig ▸ hm) g hg
  · rw [hnew, allot, hallot] at hp
    rcases List.mem_cons.1 hp with rfl | hp
    · have hout : f.className ∉ (s.newFragments fs).map Fragment.className := by
        intro hmem
        obtain ⟨g, hg, e⟩ := List.mem_map.1 hmem
        exact hne g hg e
      rw [h.kept _ hout, hentries, OrderedMap.get?_set, if_pos rfl, occurrencesAmong_cons_self]
      simp only [Option.map_some, Nat.add_comm]
    · rw [occurrencesAmong_cons_of_ne (hne p.1 (fst_mem_of_mem_allot hp))]
      exact h.entered p hp
  · rw [hnew, List.map_cons, List.mem_cons, not_or] at hn
    rw [h.kept n hn.2, hentries, OrderedMap.get?_set, if_neg hn.1, occurrencesAmong_cons_of_ne hn.1]

end Flattened

/-- Acquiring fragments in order does what the reference says. The induction is on the fragments,
with a case for a first one that is live and a case for one that is new. -/
theorem flattened_acquireAll {r t : Registry σ} {fs : List Fragment}
    (h : r.acquireAll fs = (.ok (), t)) : Flattened r fs t := by
  induction fs generalizing r with
  | nil =>
    cases h
    exact .nil _
  | cons f fs ih =>
    obtain ⟨s, hs, h⟩ := acquireAll_cons_ok.1 h
    have hconfig := (continues_acquire r f).config
    rw [hs] at hconfig
    rcases acquire_listed hs with
      ⟨e, hlive, hsink, hentries⟩ | ⟨hnone, hlisted, hstrict, hentries⟩
    · exact (ih h).cons_live hlive hconfig hsink hentries
    · exact (ih h).cons_new hnone hconfig hlisted hstrict hentries

/-- Over a sink that lists its rules, a successful insertion does what the fragments of the tree ask
for, of which those in `new` are the first ones of classes without an entry. The sink appends the
accepted rules of these, in order and under consecutive numbers, in strict mode all of their rules;
their classes have entries with the handles of these rules; every class counts one reference more for
each occurrence in the tree; and of the other entries nothing but the count changes, and that only if
the class occurs. -/
theorem insert_refines_flattening {r t : Registry σ} {e : StyleElement} {reg : Registration}
    (h : r.insert e = (.ok reg, t)) :
    let new := r.newFragments e.fragments
    let allotted := allot r.sink (next r.sink) new
    (held t.sink).rules = (held r.sink).rules ++ new.flatMap (accepted r.sink) ∧
      held t.sink = held r.sink ++ allotted.flatMap Prod.snd ∧
      (r.config.mode = .strict → ∀ f ∈ new, accepted r.sink f = f.rules) ∧
      (∀ n, t.refCount n = r.refCount n + e.classNames.count n) ∧
      (∀ p ∈ allotted, t.entries.get? p.1.className =
        some ⟨e.classNames.count p.1.className, p.2.map Prod.fst⟩) ∧
      ∀ n, n ∉ new.map Fragment.className → t.entries.get? n =
        (r.entries.get? n).map fun entry =>
          { entry with count := entry.count + e.classNames.count n } := by
  have hflat := flattened_acquireAll (acquireAll_of_insertElement (insert_ok h).2)
  have hheld := hflat.listed.held
  refine ⟨?_, ?_, hflat.strict, fun n => ?_, hflat.entered, hflat.kept⟩
  · rw [hheld, HeldRules.rules, List.map_append]
    exact congrArg (_ ++ ·) (rules_numbered _ _)
  · rw [hheld, flatMap_allot]
  · exact refCount_acquireAll (acquireAll_of_insertElement (insert_ok h).2) n

/-- A relaxed registry in which one class of the tree is live. Of two others, one occurs three times,
at different depths, and has a rule that is refused. -/
theorem insert_refines_flattening_relaxed :
    let x : Fragment := ⟨⟨"X", by decide⟩, [⟨"x"⟩, ⟨"b"⟩, ⟨"xx"⟩]⟩
    let y : Fragment := ⟨⟨"Y", by decide⟩, [⟨"y"⟩]⟩
    let live : StyleElement := .node [] (some ⟨⟨"L", by decide⟩, [⟨"l"⟩]⟩)
    let deep : StyleElement := .node [.node [] (some x)] (some y)
    let e : StyleElement := .node [.node [] (some x), live, deep] (some x)
    let c : Client FastidiousSink := .ofSinks ⟨.relaxed⟩ [.empty "b"]
    ∃ r t, (c.run [.insert 0 live]).registries[0]? = some r ∧ r.insert e = (.ok ⟨0, e⟩, t) ∧
      r.newFragments e.fragments = [x, y] ∧
      (held t.sink).rules = (held r.sink).rules ++ [⟨"x"⟩, ⟨"xx"⟩, ⟨"y"⟩] ∧
      t.entries.get? x.className = some ⟨3, [⟨1⟩, ⟨2⟩]⟩ ∧
      ∀ n, t.refCount n = r.refCount n + e.classNames.count n := by
  intro x y live deep e c
  obtain ⟨r, hr, hanswer, hnew, haccepted⟩ : ∃ r, (c.run [.insert 0 live]).registries[0]? = some r ∧
      (r.insert e).1 = .ok ⟨0, e⟩ ∧ r.newFragments e.fragments = [x, y] ∧
      allot r.sink (next r.sink) [x, y] =
        [(x, [(⟨1⟩, ⟨"x"⟩), (⟨2⟩, ⟨"xx"⟩)]), (y, [(⟨3⟩, ⟨"y"⟩)])] :=
    ⟨_, rfl, by decide +kernel, by decide +kernel, by decide +kernel⟩
  have h : r.insert e = (.ok ⟨0, e⟩, (r.insert e).2) := by rw [← hanswer]
  obtain ⟨-, hheld, -, hcounts, hentered, -⟩ := insert_refines_flattening h
  rw [hnew, haccepted] at hheld hentered
  refine ⟨r, _, hr, h, hnew, ?_, ?_, hcounts⟩
  · rw [hheld]
    exact List.map_append
  · exact hentered _ List.mem_cons_self

end Registry

end ScopedCss
