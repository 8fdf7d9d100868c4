import ScopedCss.Proofs.Registry.Walk

/-!
# Acquiring a class

Acquiring the class of a fragment has three outcomes: a live class counts one more reference and
the sink hears nothing of it; a class that is not live brings its rules to the sink and gets an
entry with their handles; or, in strict mode, a rule is refused, and the sink gives up what it had
taken of the fragment.
-/

namespace ScopedCss

namespace Registry

open LawfulSink

variable {σ : Type} [Sink σ]

/-- An error comes in strict mode only. -/
theorem strict_of_addRules_error {r t : Registry σ} {taken : List Handle} {rules : List StyleRule}
    {err : RegistryError} (h : r.addRules taken rules = (.error err, t)) :
    r.config.mode = .strict := by
  induction rules generalizing r taken with
  | nil => cases h
  | cons rule rules ih =>
    rw [addRules] at h
    split at h
    · have hm := ih h
      exact hm
    · split at h
      · next hm => exact hm
      · have hm := ih h
        exact hm

variable [LawfulSink σ]

/-- Offering rules ends well with some of them taken, with all of them in strict mode; or it ends at
a refusal in strict mode, and everything that had been taken is given up. -/
theorem addRules_cases (r : Registry σ) (taken : List Handle) (rules : List StyleRule) :
    (∃ ps t log, Took r.sink ps t ∧ (ps.map Prod.snd).Sublist rules ∧
      (r.config.mode = .strict → ps.map Prod.snd = rules) ∧
      r.addRules taken rules =
        (.ok (taken ++ ps.map Prod.fst), { r with sink := t, log := log })) ∨
    ∃ ps t err, Took r.sink ps t ∧
      r.addRules taken rules =
        (.error err, { r with sink := Sink.retractAll t (taken ++ ps.map Prod.fst) }) := by
  induction rules generalizing r taken with
  | nil =>
    refine .inl ⟨[], r.sink, r.log, .nil _, List.Sublist.slnil, fun _ => rfl, ?_⟩
    rw [List.map_nil, List.append_nil]
    rfl
  | cons rule rules ih =>
    rcases hadd : Sink.add r.sink rule with ⟨e | h, s⟩
    · have hs : s = r.sink := add_error hadd
      subst hs
      cases hm : r.config.mode with
      | strict =>
        refine .inr ⟨[], r.sink, ⟨rule, e⟩, .nil _, ?_⟩
        rw [addRules, hadd]
        simp only [hm, List.map_nil, List.append_nil]
      | relaxed =>
        -- The rule is left out, and the registry goes on as it was.
        have hstep : r.addRules taken (rule :: rules) =
            (r.note (.ruleSkipped rule e)).addRules taken rules := by
          rw [addRules, hadd]
          simp only [hm]
        rw [hstep]
        rcases ih (r.note (.ruleSkipped rule e)) taken with
          ⟨ps, t, log, htook, hsub, -, heq⟩ | ⟨ps, t, err, htook, heq⟩
        · refine .inl ⟨ps, t, log, htook, hsub.cons rule, fun hc => ?_, heq⟩
          cases hc
        · have := strict_of_addRules_error heq
          rw [note, hm] at this
          cases this
    · have hstep : r.addRules taken (rule :: rules) =
          Registry.addRules { r with sink := s } (taken ++ [h]) rules := by rw [addRules, hadd]
      rw [hstep]
      rcases ih { r with sink := s } (taken ++ [h]) with
        ⟨ps, t, log, htook, hsub, hall, heq⟩ | ⟨ps, t, err, htook, heq⟩
      · refine .inl ⟨(h, rule) :: ps, t, log, .cons hadd htook, hsub.cons_cons rule, fun hc => ?_, ?_⟩
        · rw [List.map_cons, hall hc]
        · rw [heq, List.map_cons, List.append_assoc]
          rfl
      · refine .inr ⟨(h, rule) :: ps, t, err, .cons hadd htook, ?_⟩
        rw [heq, List.map_cons, List.append_assoc]
        rfl

/-- The three outcomes of acquiring a class: it was live, it is live now, or it was refused. -/
theorem acquire_cases (r : Registry σ) (f : Fragment) :
    (∃ e, r.entries.get? f.className = some e ∧
      r.acquire f =
        (.ok (), { r with entries := r.entries.set f.className { e with count := e.count + 1 } })) ∨
    (r.entries.get? f.className = none ∧ ∃ ps t log, Took r.sink ps t ∧
      (ps.map Prod.snd).Sublist f.rules ∧
      (r.config.mode = .strict → ps.map Prod.snd = f.rules) ∧
      r.acquire f =
        (.ok (), { r with
          sink := t
          entries := r.entries.set f.className ⟨1, ps.map Prod.fst⟩
          log := log })) ∨
    (r.entries.get? f.className = none ∧ ∃ ps t err, Took r.sink ps t ∧
      r.acquire f =
        (.error err, { r with sink := Sink.retractAll t (ps.map Prod.fst) })) := by
  cases hg : r.entries.get? f.className with
  | some e =>
    refine .inl ⟨e, rfl, ?_⟩
    rw [acquire, hg]
  | none =>
    rcases addRules_cases r [] f.rules with
      ⟨ps, t, log, htook, hsub, hall, heq⟩ | ⟨ps, t, err, htook, heq⟩
    · refine .inr (.inl ⟨rfl, ps, t, log ++ [.inserted f.className (ps.map Prod.fst).length],
        htook, hsub, hall, ?_⟩)
      rw [acquire, hg]
      simp only [heq]
      rfl
    · refine .inr (.inr ⟨rfl, ps, t, err, htook, ?_⟩)
      rw [acquire, hg]
      simp only [heq]
      rfl

/-! ## Registries in order -/

/-- Every entry has a reference, and the numbers in the sink are in order. -/
structure Sound (r : Registry σ) : Prop where
  positive : ∀ n e, r.entries.get? n = some e → 0 < e.count
  numbered : WellNumbered r.sink

theorem dropRef_positive {m : OrderedMap ClassName RegistryEntry}
    (hm : ∀ n e, m.get? n = some e → 0 < e.count) (n : ClassName) :
    ∀ n' e, (dropRef m n).get? n' = some e → 0 < e.count := by
  intro n' e he
  obtain ⟨e', he', -, hpos⟩ := of_get?_dropRef he
  exact hpos (hm n' e' he')

namespace Sound

variable {r t : Registry σ}

theorem relinquish (hr : Sound r) (n : ClassName) : Sound (r.relinquish n) := by
  refine ⟨?_, ?_⟩
  · rw [relinquish_entries]
    exact dropRef_positive hr.positive n
  · rw [relinquish_sink]
    exact hr.numbered.retractAll _

theorem relinquishAll (hr : Sound r) (ns : List ClassName) : Sound (r.relinquishAll ns) := by
  induction ns generalizing r with
  | nil => exact hr
  | cons n ns ih => exact ih (hr.relinquish n)

/-- Acquiring a class keeps a registry sound: entries count at least one reference, and the numbers
in the sink stay in order. -/
theorem acquire (hr : Sound r) (f : Fragment) : Sound (r.acquire f).2 := by
  have hset : ∀ e : RegistryEntry, 0 < e.count →
      ∀ n e', (r.entries.set f.className e).get? n = some e' → 0 < e'.count := by
    intro e he n e' h'
    rw [OrderedMap.get?_set] at h'
    split at h'
    · cases h'; exact he
    · exact hr.positive n e' h'
  rcases acquire_cases r f with
    ⟨e, hg, heq⟩ | ⟨hg, ps, t, log, htook, -, -, heq⟩ | ⟨hg, ps, t, err, htook, heq⟩
  · rw [heq]
    exact ⟨hset _ (Nat.succ_pos _), hr.numbered⟩
  · rw [heq]
    exact ⟨hset _ Nat.one_pos, htook.wellNumbered hr.numbered⟩
  · rw [heq]
    exact ⟨hr.positive, (htook.wellNumbered hr.numbered).retractAll _⟩

/-- A sound registry that has acquired some classes is sound. -/
theorem acquireAll (hr : Sound r) {fs : List Fragment} (h : r.acquireAll fs = (.ok (), t)) :
    Sound t := by
  induction fs generalizing r with
  | nil => cases h; exact hr
  | cons f fs ih =>
    obtain ⟨s, hs, h⟩ := acquireAll_cons_ok.1 h
    have hsound := hr.acquire f
    rw [hs] at hsound
    exact ih hsound h

end Sound

end Registry

end ScopedCss
