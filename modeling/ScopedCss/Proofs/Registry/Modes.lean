import ScopedCss.Proofs.Registry.Acquire
import ScopedCss.Proofs.Registry.Frame

/-!
# Strict and relaxed insertion

The two modes differ in what they do about a refused rule, and so they do the same until the first
one. Then a strict insertion gives up what it has acquired and fails, while a relaxed one reports the
rule and goes on. This is shown for the rules of one class, for one class, and for the classes of a
tree in turn (`Degrades`), and nothing is asked of the sink: until the first refusal it is in one and
the same state in both modes, and so gives the same answers, whatever they depend on.
-/

namespace ScopedCss

namespace Registry

variable {σ : Type}

/-- The registry with another mode, and nothing else changed. -/
def withMode (r : Registry σ) (mode : InsertionMode) : Registry σ :=
  { r with config := { r.config with mode := mode } }

/-- How an operation comes out in strict mode, and how it comes out in relaxed mode on the same
registry, where `log` is what was reported before. -/
inductive Degrades {α : Type} (log : List Notice) :
    Except RegistryError α × Registry σ → Except RegistryError α × Registry σ → Prop where
  /-- No rule is refused. Nothing but the mode differs, and there is no warning. -/
  | agree {a : α} {t : Registry σ} (new : List Notice) (hlog : t.log = log ++ new)
      (hquiet : ∀ n ∈ new, n.level ≠ .warn) :
      Degrades log (.ok a, t.withMode .strict) (.ok a, t.withMode .relaxed)
  /-- A rule is refused. This is the error in strict mode, and the first warning in relaxed mode. -/
  | refuse {err : RegistryError} {a : α} {t u : Registry σ} (quiet loud : List Notice)
      (hmode : u.config.mode = .relaxed)
      (hlog : u.log = log ++ (quiet ++ .ruleSkipped err.rule err.cause :: loud))
      (hquiet : ∀ n ∈ quiet, n.level ≠ .warn) :
      Degrades log (.error err, t) (.ok a, u)

/-- An operation that goes on where another one has ended without a refusal. -/
theorem Degrades.after {α : Type} {log log' new : List Notice}
    {p q : Except RegistryError α × Registry σ} (h : Degrades log' p q) (hlog : log' = log ++ new)
    (hquiet : ∀ n ∈ new, n.level ≠ .warn) : Degrades log p q := by
  have hboth : ∀ quiet : List Notice, (∀ n ∈ quiet, n.level ≠ .warn) →
      ∀ n ∈ new ++ quiet, n.level ≠ .warn := by
    intro quiet hq n hn
    rcases List.mem_append.1 hn with hn | hn
    · exact hquiet n hn
    · exact hq n hn
  subst hlog
  cases h with
  | agree quiet hlog hq => exact .agree (new ++ quiet) (by rw [hlog, List.append_assoc]) (hboth quiet hq)
  | refuse quiet loud hmode hlog hq =>
    refine .refuse (new ++ quiet) loud hmode ?_ (hboth quiet hq)
    rw [hlog, List.append_assoc, List.append_assoc]

variable [Sink σ]

/-! ## Relaxed insertion does not fail -/

/-- In relaxed mode bringing rules to the sink does not fail. -/
theorem addRules_relaxed {r : Registry σ} (hr : r.config.mode = .relaxed) (taken : List Handle)
    (rules : List StyleRule) :
    ∃ handles t, r.addRules taken rules = (.ok handles, t) ∧ Continues r t := by
  have hframe := (addRules_frame r taken rules).1
  rcases h : r.addRules taken rules with ⟨err | handles, t⟩
  · have hstrict := strict_of_addRules_error h
    rw [hr] at hstrict
    cases hstrict
  · rw [h] at hframe
    exact ⟨handles, t, rfl, hframe⟩

/-- In relaxed mode no class fails to become live. -/
theorem acquire_relaxed {r : Registry σ} (hr : r.config.mode = .relaxed) (f : Fragment) :
    ∃ t, r.acquire f = (.ok (), t) ∧ Continues r t := by
  have hframe := continues_acquire r f
  rcases h : r.acquire f with ⟨err | ⟨⟨⟩⟩, t⟩
  · obtain ⟨handles, s, hs, -⟩ := addRules_relaxed hr [] f.rules
    rw [acquire, hs] at h
    cases hg : r.entries.get? f.className <;> rw [hg] at h <;> cases h
  · rw [h] at hframe
    exact ⟨t, rfl, hframe⟩

/-- In relaxed mode all fragments are acquired. -/
theorem acquireAll_relaxed {r : Registry σ} (hr : r.config.mode = .relaxed) (fs : List Fragment) :
    ∃ t, r.acquireAll fs = (.ok (), t) ∧ Continues r t := by
  induction fs generalizing r with
  | nil => exact ⟨r, rfl, .refl r⟩
  | cons f fs ih =>
    obtain ⟨s, hs, hrs⟩ := acquire_relaxed hr f
    obtain ⟨t, ht, hst⟩ := ih (hrs.config ▸ hr)
    exact ⟨t, acquireAll_cons_ok.2 ⟨s, hs, ht⟩, hrs.trans hst⟩

/-- In relaxed mode no insertion fails, whatever the sink refuses. -/
theorem insertElement_relaxed {r : Registry σ} (hr : r.config.mode = .relaxed) (e : StyleElement) :
    ∃ t, r.insertElement e = (.ok (), t) := by
  rcases h : r.insertElement e with ⟨err | ⟨⟨⟩⟩, t⟩
  · obtain ⟨before, f, after, s, u, names, -, hs, hu, -, -⟩ := abandons_of_insertElement h
    obtain ⟨s', hs', hrs⟩ := acquireAll_relaxed hr before
    rw [hs] at hs'
    cases hs'
    obtain ⟨u', hu', -⟩ := acquire_relaxed (hrs.config ▸ hr) f
    rw [hu] at hu'
    cases hu'
  · exact ⟨t, rfl⟩

/-! ## The same until the first refusal -/

/-- The rules of one class, offered in both modes. The induction is on the rules; up to the first
refused one the two registries are the same but for the mode. -/
theorem degrades_addRules (r : Registry σ) (taken : List Handle) (rules : List StyleRule) :
    Degrades r.log ((r.withMode .strict).addRules taken rules)
      ((r.withMode .relaxed).addRules taken rules) := by
  induction rules generalizing r taken with
  | nil => exact .agree [] (by simp) (by simp)
  | cons rule rules ih =>
    rcases hadd : Sink.add r.sink rule with ⟨e | h, s⟩
    · have hstrict : (r.withMode .strict).addRules taken (rule :: rules) =
          (.error ⟨rule, e⟩, { r.withMode .strict with sink := Sink.retractAll s taken }) := by
        rw [addRules, show (r.withMode .strict).sink = r.sink from rfl, hadd]
        rfl
      have hrelaxed : (r.withMode .relaxed).addRules taken (rule :: rules) =
          Registry.addRules ({ r.withMode .relaxed with sink := s }.note (.ruleSkipped rule e)) taken
            rules := by
        rw [addRules, show (r.withMode .relaxed).sink = r.sink from rfl, hadd]
        rfl
      have hmode : ({ r.withMode .relaxed with sink := s }.note (.ruleSkipped rule e)).config.mode =
        .relaxed := rfl
      obtain ⟨handles, u, hu, hcont⟩ := addRules_relaxed hmode taken rules
      obtain ⟨loud, hlog, -⟩ := hcont.log
      have hfirst : u.log = r.log ++ ([] ++ .ruleSkipped rule e :: loud) := by
        rw [hlog]
        exact List.append_assoc r.log _ _
      rw [hstrict, hrelaxed, hu]
      exact .refuse [] loud (hcont.config ▸ hmode) hfirst (by simp)
    · have hstep : ∀ mode, (r.withMode mode).addRules taken (rule :: rules) =
          Registry.addRules (Registry.withMode { r with sink := s } mode) (taken ++ [h]) rules := by
        intro mode
        rw [addRules, show (r.withMode mode).sink = r.sink from rfl, hadd]
        rfl
      rw [hstep, hstep]
      exact ih { r with sink := s } (taken ++ [h])

/-- One class, acquired in both modes: a live one is counted in either, and a new one is decided by
its rules. -/
theorem degrades_acquire (r : Registry σ) (f : Fragment) :
    Degrades r.log ((r.withMode .strict).acquire f) ((r.withMode .relaxed).acquire f) := by
  cases hg : r.entries.get? f.className with
  | some e =>
    have hbump : ∀ mode, (r.withMode mode).acquire f = (.ok (), Registry.withMode
        { r with entries := r.entries.set f.className { e with count := e.count + 1 } } mode) := by
      intro mode
      rw [acquire, show (r.withMode mode).entries = r.entries from rfl, hg]
      rfl
    rw [hbump, hbump]
    exact .agree [] (List.append_nil _).symm (by simp)
  | none =>
    have hrules := degrades_addRules r [] f.rules
    simp only [acquire, show ∀ mode, (r.withMode mode).entries = r.entries from fun _ => rfl, hg]
    revert hrules
    generalize (r.withMode .strict).addRules [] f.rules = p
    generalize (r.withMode .relaxed).addRules [] f.rules = q
    intro hrules
    cases hrules with
    | @agree handles t new hlog hquiet =>
      let entered : Registry σ :=
        { t.note (.inserted f.className handles.length) with
          entries := t.entries.set f.className ⟨1, handles⟩ }
      have hentered : Degrades t.log (.ok (), entered.withMode .strict)
          (.ok (), entered.withMode .relaxed) :=
        .agree [.inserted f.className handles.length] rfl (by simp [Notice.level])
      exact hentered.after hlog hquiet
    | @refuse err handles t u quiet loud hmode hlog hquiet =>
      refine .refuse quiet (loud ++ [.inserted f.className handles.length]) hmode ?_ hquiet
      show u.log ++ [_] = _
      rw [hlog]
      simp

/-- The classes of a tree in turn. Once the strict registry has failed, nothing is asked any more of
the relaxed one but that it does not fail. -/
theorem degrades_acquireAll (r : Registry σ) (fs : List Fragment) :
    Degrades r.log ((r.withMode .strict).acquireAll fs) ((r.withMode .relaxed).acquireAll fs) := by
  induction fs generalizing r with
  | nil => exact .agree [] (List.append_nil _).symm (by simp)
  | cons f fs ih =>
    have hf := degrades_acquire r f
    rw [acquireAll, acquireAll]
    revert hf
    generalize (r.withMode .strict).acquire f = p
    generalize (r.withMode .relaxed).acquire f = q
    intro hf
    cases hf with
    | @agree _ t new hlog hquiet => exact (ih t).after hlog hquiet
    | @refuse err _ t u quiet loud hmode hlog hquiet =>
      obtain ⟨v, hv, hcont⟩ := acquireAll_relaxed hmode fs
      obtain ⟨more, hmore, -⟩ := hcont.log
      simp only [hv]
      refine .refuse quiet (loud ++ more) (hcont.config ▸ hmode) ?_ hquiet
      rw [hmore, hlog]
      simp

/-- The walk over a tree, in both modes. The strict one undoes what it has done where it fails, but
the warning it fails with is the first one of the relaxed walk all the same. -/
theorem degrades_insertElement (r : Registry σ) (e : StyleElement) :
    Degrades r.log ((r.withMode .strict).insertElement e) ((r.withMode .relaxed).insertElement e) := by
  have hfragments := degrades_acquireAll r e.fragments
  obtain ⟨u, hu⟩ := insertElement_relaxed (r := r.withMode .relaxed) rfl e
  rw [acquireAll_of_insertElement hu] at hfragments
  rw [hu]
  rcases hs : (r.withMode .strict).insertElement e with ⟨err | ⟨⟨⟩⟩, t⟩
  · -- What a failed insertion leaves is of no interest here, so it is enough that it meets the
    -- refusal at which the walk over the fragments ends.
    obtain ⟨v, hv⟩ := (abandons_of_insertElement hs).acquireAll
    rw [hv] at hfragments
    cases hfragments with
    | refuse quiet loud hmode hlog hquiet => exact .refuse quiet loud hmode hlog hquiet
  · rw [acquireAll_of_insertElement hs] at hfragments
    exact hfragments

/-! ## Warnings -/

/-- The first warning among some notices. -/
def firstWarning (notices : List Notice) : Option Notice := notices.find? fun n => n.level = .warn

theorem firstWarning_of_quiet {quiet : List Notice} (h : ∀ n ∈ quiet, n.level ≠ .warn) :
    firstWarning quiet = none := by
  refine List.find?_eq_none.2 fun n hn hw => h n hn (of_decide_eq_true hw)

theorem firstWarning_append {quiet : List Notice} (h : ∀ n ∈ quiet, n.level ≠ .warn)
    (loud : List Notice) : firstWarning (quiet ++ loud) = firstWarning loud := by
  rw [firstWarning, List.find?_append, ← firstWarning, firstWarning_of_quiet h]
  rfl

/-- Whatever the registry and its sink are, a relaxed insertion succeeds. If a strict one succeeds on
the same registry, it issues the same registration and leaves the same entries and the same sink, and
the relaxed one does not warn. If it fails, the first warning of the relaxed one is about the rule
that it names, with the same cause. -/
theorem relaxed_insert_agrees_until_refusal (r : Registry σ) (e : StyleElement) :
    ∃ reg t new, (r.withMode .relaxed).insert e = (.ok reg, t) ∧ t.log = r.log ++ new ∧
      match (r.withMode .strict).insert e with
      | (.ok reg', s) =>
        reg' = reg ∧ s.entries = t.entries ∧ s.sink = t.sink ∧ firstWarning new = none
      | (.error err, _) => firstWarning new = some (.ruleSkipped err.rule err.cause) := by
  have he := degrades_insertElement r e
  rw [insert, insert]
  revert he
  generalize (r.withMode .strict).insertElement e = p
  generalize (r.withMode .relaxed).insertElement e = q
  intro he
  cases he with
  | @agree _ t new hlog hquiet =>
    exact ⟨_, _, new, rfl, hlog, rfl, rfl, rfl, firstWarning_of_quiet hquiet⟩
  | @refuse err _ t u quiet loud hmode hlog hquiet =>
    refine ⟨_, _, _, rfl, hlog, ?_⟩
    exact firstWarning_append hquiet _

end Registry

end ScopedCss
