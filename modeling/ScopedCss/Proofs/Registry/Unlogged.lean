import ScopedCss.Proofs.Registry.Rollback

/-!
# What is reported is never read

Registries that differ in nothing but what they have reported answer alike, whatever is asked of them,
and differ in nothing but their logs afterwards. So a notice, such as that a registration of another
registry was ignored, is without any consequence.
-/

namespace ScopedCss

namespace Registry

open StyleElement

variable {σ : Type}

/-- The same answer, and registries that differ in their logs at most. -/
def AgreeUpToLog {α : Type} (p p' : α × Registry σ) : Prop :=
  ∃ answer r t, p = (answer, r) ∧ p' = (answer, t) ∧ UpToLog r t

namespace UpToLog

variable {r t : Registry σ}

theorem symm (h : UpToLog r t) : UpToLog t r :=
  ⟨h.id.symm, h.config.symm, h.entries.symm, h.sink.symm⟩

theorem note (h : UpToLog r t) (n m : Notice) : UpToLog (r.note n) (t.note m) :=
  ⟨h.id, h.config, h.entries, h.sink⟩

theorem withSink (h : UpToLog r t) (s : σ) : UpToLog { r with sink := s } { t with sink := s } :=
  ⟨h.id, h.config, h.entries, rfl⟩

variable [Sink σ]

/-! ## Classes -/

/-- Bringing rules to the sink does not read the log. -/
theorem addRules (h : UpToLog r t) (taken : List Handle) (rules : List StyleRule) :
    AgreeUpToLog (r.addRules taken rules) (t.addRules taken rules) := by
  induction rules generalizing r t taken with
  | nil => exact ⟨_, _, _, rfl, rfl, h⟩
  | cons rule rules ih =>
    have hmode : t.config.mode = r.config.mode := by rw [h.config]
    rw [Registry.addRules, Registry.addRules, h.sink, hmode]
    rcases Sink.add r.sink rule with ⟨e | handle, s⟩
    · cases r.config.mode with
      | strict => exact ⟨_, _, _, rfl, rfl, h.withSink _⟩
      | relaxed => exact ih ((h.withSink s).note _ _) taken
    · exact ih (h.withSink s) _

theorem acquire (h : UpToLog r t) (f : Fragment) : AgreeUpToLog (r.acquire f) (t.acquire f) := by
  rw [Registry.acquire, Registry.acquire, h.entries]
  cases r.entries.get? f.className with
  | some e => exact ⟨_, _, _, rfl, rfl, h.id, h.config, rfl, h.sink⟩
  | none =>
    obtain ⟨answer, r', t', hr, ht, h'⟩ := h.addRules [] f.rules
    simp only [hr, ht]
    cases answer with
    | error e => exact ⟨_, _, _, rfl, rfl, h'⟩
    | ok handles =>
      refine ⟨_, _, _, rfl, rfl, h'.id, h'.config, ?_, h'.sink⟩
      exact congrArg (fun m => OrderedMap.set m f.className ⟨1, handles⟩) h'.entries

/-! ## Elements -/

theorem removeAll (h : UpToLog r t) (es : List StyleElement) :
    UpToLog (r.removeAll es) (t.removeAll es) := by
  rw [removeAll_eq, removeAll_eq]
  exact h.relinquishAll _

/-- Inserting a tree does not read the log, and neither does undoing what has been inserted. -/
theorem insertions :
    (∀ (e : StyleElement) (r t : Registry σ), UpToLog r t →
      AgreeUpToLog (r.insertElement e) (t.insertElement e)) ∧
    ∀ (es : List StyleElement) (r t : Registry σ) (done : List StyleElement), UpToLog r t →
      AgreeUpToLog (r.insertAll done es) (t.insertAll done es) := by
  refine StyleElement.induct (fun cs owned ih r t h => ?_)
    (fun r t done h => ⟨_, _, _, rfl, rfl, h⟩) fun e es ihe ihes r t done h => ?_
  · obtain ⟨answer, r', t', hr, ht, h'⟩ := ih r t [] h
    rw [Registry.insertElement, Registry.insertElement, hr, ht]
    rcases answer with err | ⟨⟨⟩⟩
    · exact ⟨_, _, _, rfl, rfl, h'⟩
    · cases owned with
      | none => exact ⟨_, _, _, rfl, rfl, h'⟩
      | some f =>
        obtain ⟨answer, r'', t'', hr, ht, h''⟩ := h'.acquire f
        simp only [hr, ht]
        rcases answer with err | ⟨⟨⟩⟩
        · exact ⟨_, _, _, rfl, rfl, h''.removeAll cs.reverse⟩
        · exact ⟨_, _, _, rfl, rfl, h''⟩
  · obtain ⟨answer, r', t', hr, ht, h'⟩ := ihe r t h
    rw [Registry.insertAll, Registry.insertAll, hr, ht]
    rcases answer with err | ⟨⟨⟩⟩
    · exact ⟨_, _, _, rfl, rfl, h'.removeAll done⟩
    · exact ihes r' t' (e :: done) h'

theorem insert (h : UpToLog r t) (e : StyleElement) : AgreeUpToLog (r.insert e) (t.insert e) := by
  obtain ⟨answer, r', t', hr, ht, h'⟩ := insertions.1 e r t h
  rw [Registry.insert, Registry.insert, hr, ht]
  rcases answer with err | ⟨⟨⟩⟩
  · exact ⟨_, _, _, rfl, rfl, h'⟩
  · refine ⟨_, _, _, rfl, ?_, h'⟩
    simp only [h'.id]

theorem release (h : UpToLog r t) (reg : Registration) :
    UpToLog (r.release reg) (t.release reg) := by
  rw [Registry.release, Registry.release, h.id]
  split
  · rw [removeElement_eq, removeElement_eq]
    exact h.relinquishAll _
  · exact h.note _ _

/-! ## Rules without a class -/

/-- Inserting a rule that belongs to no class does not read the log. -/
theorem insertGlobal (h : UpToLog r t) (rule : StyleRule) :
    AgreeUpToLog (r.insertGlobal rule) (t.insertGlobal rule) := by
  have hmode : t.config.mode = r.config.mode := by rw [h.config]
  rw [Registry.insertGlobal, Registry.insertGlobal, h.sink, h.id, hmode]
  rcases Sink.addGlobal r.sink rule with ⟨e | handle, s⟩
  · cases r.config.mode with
    | strict => exact ⟨_, _, _, rfl, rfl, rfl, h.config, h.entries, rfl⟩
    | relaxed => exact ⟨_, _, _, rfl, rfl, rfl, h.config, h.entries, rfl⟩
  · exact ⟨_, _, _, rfl, rfl, rfl, h.config, h.entries, rfl⟩

theorem releaseGlobal (h : UpToLog r t) (reg : GlobalRegistration) :
    UpToLog (r.releaseGlobal reg) (t.releaseGlobal reg) := by
  rw [Registry.releaseGlobal, Registry.releaseGlobal, h.id, h.sink]
  split
  · cases reg.handle with
    | none => exact h
    | some handle => exact ⟨rfl, h.config, h.entries, rfl⟩
  · exact h.note _ _

theorem operate (h : UpToLog r t) (op : SinkOperation) :
    UpToLog (r.operate op) (t.operate op) := by
  rw [Registry.operate, Registry.operate, h.sink]
  exact h.withSink _

end UpToLog

/-! ## Registrations of other registries -/

theorem upToLog_note (r : Registry σ) (n : Notice) : UpToLog r (r.note n) := ⟨rfl, rfl, rfl, rfl⟩

variable [Sink σ]

theorem upToLog_release_of_ne {r : Registry σ} {reg : Registration} (h : reg.registry ≠ r.id) :
    UpToLog r (r.release reg) := by
  rw [release, if_neg h]
  exact upToLog_note r _

theorem upToLog_releaseGlobal_of_ne {r : Registry σ} {reg : GlobalRegistration}
    (h : reg.registry ≠ r.id) : UpToLog r (r.releaseGlobal reg) := by
  rw [releaseGlobal, if_neg h]
  exact upToLog_note r _

end Registry

end ScopedCss
