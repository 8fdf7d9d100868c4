import ScopedCss.Proofs.Registry.Walk

/-!
# What a registry keeps

The identity and the settings of a registry are fixed when it is made, and its log only grows. No
operation changes this, whatever the sink does. What a registry reports is about classes, rules and
registrations, and never about guards, of which it knows nothing.
-/

namespace ScopedCss

/-- Whether a notice says that a guard ended without giving back its registration. -/
def Notice.isLeak : Notice → Bool
  | .stylesLeaked _ | .ruleLeaked .. => true
  | _ => false

namespace Registry

variable {σ : Type}

/-- The second registry goes on from the first: it has its identity and its settings, and has
reported more, but nothing about guards. -/
structure Continues (r t : Registry σ) : Prop where
  id : t.id = r.id
  config : t.config = r.config
  log : ∃ notices, t.log = r.log ++ notices ∧ ∀ n ∈ notices, n.isLeak = false

namespace Continues

variable {r s t : Registry σ}

theorem of_log_eq (hid : t.id = r.id) (hconfig : t.config = r.config) (hlog : t.log = r.log) :
    Continues r t := by
  refine ⟨hid, hconfig, [], ?_, fun n hn => ?_⟩
  · rw [hlog, List.append_nil]
  · cases hn

theorem refl (r : Registry σ) : Continues r r := .of_log_eq rfl rfl rfl

/-- A registry that goes on twice has gone on, and its log has grown by both parts. -/
theorem trans (h : Continues r s) (h' : Continues s t) : Continues r t := by
  obtain ⟨ns, hns, hquiet⟩ := h.log
  obtain ⟨ms, hms, hquiet'⟩ := h'.log
  refine ⟨h'.id.trans h.id, h'.config.trans h.config, ns ++ ms, ?_, fun n hn => ?_⟩
  · rw [hms, hns, List.append_assoc]
  · rcases List.mem_append.1 hn with hn | hn
    · exact hquiet n hn
    · exact hquiet' n hn

theorem of_log_eq_concat {n : Notice} (hn : n.isLeak = false) (hid : t.id = r.id)
    (hconfig : t.config = r.config) (hlog : t.log = r.log ++ [n]) : Continues r t := by
  refine ⟨hid, hconfig, [n], hlog, fun m hm => ?_⟩
  rw [List.mem_singleton.1 hm]
  exact hn

/-- If nothing has been said about guards, nothing is said about them afterwards. -/
theorem quiet (h : Continues r t) (hr : ∀ n ∈ r.log, n.isLeak = false) :
    ∀ n ∈ t.log, n.isLeak = false := by
  obtain ⟨notices, hlog, hnotices⟩ := h.log
  intro n hn
  rw [hlog] at hn
  rcases List.mem_append.1 hn with hn | hn
  · exact hr n hn
  · exact hnotices n hn

end Continues

variable [Sink σ]

/-- Offering rules to the sink leaves the entries alone. -/
theorem addRules_frame (r : Registry σ) (taken : List Handle) (rules : List StyleRule) :
    Continues r (r.addRules taken rules).2 ∧ (r.addRules taken rules).2.entries = r.entries := by
  induction rules generalizing r taken with
  | nil => exact ⟨.refl r, rfl⟩
  | cons rule rules ih =>
    rw [addRules]
    split
    · next h s hs =>
      have hadd : Continues r { r with sink := s } := .of_log_eq rfl rfl rfl
      obtain ⟨hrest, hentries⟩ := ih { r with sink := s } (taken ++ [h])
      exact ⟨hadd.trans hrest, hentries⟩
    · next e s hs =>
      split
      · exact ⟨.of_log_eq rfl rfl rfl, rfl⟩
      · have hskip : Continues r ({ r with sink := s }.note (.ruleSkipped rule e)) :=
          .of_log_eq_concat rfl rfl rfl rfl
        obtain ⟨hrest, hentries⟩ := ih ({ r with sink := s }.note (.ruleSkipped rule e)) taken
        exact ⟨hskip.trans hrest, hentries⟩

/-- Acquiring a class keeps the identity and the settings and reports no leak. -/
theorem continues_acquire (r : Registry σ) (f : Fragment) : Continues r (r.acquire f).2 := by
  rw [acquire]
  split
  · exact .of_log_eq rfl rfl rfl
  · have h := (addRules_frame r [] f.rules).1
    split
    · next hs => rw [hs] at h; exact h
    · next handles t hs =>
      rw [hs] at h
      exact h.trans (.of_log_eq_concat (n := .inserted f.className handles.length) rfl rfl rfl rfl)

/-- Giving up a class keeps the identity and the settings and reports no leak. -/
theorem continues_relinquish (r : Registry σ) (n : ClassName) : Continues r (r.relinquish n) := by
  rw [relinquish]
  split
  · exact .refl r
  · next e he =>
    split
    · exact .of_log_eq rfl rfl rfl
    · exact .of_log_eq_concat (n := .retracted n e.handles.length) rfl rfl rfl rfl

theorem continues_relinquishAll (r : Registry σ) (ns : List ClassName) :
    Continues r (r.relinquishAll ns) := by
  induction ns generalizing r with
  | nil => exact .refl r
  | cons n ns ih => exact (continues_relinquish r n).trans (ih _)

theorem continues_removeAll (r : Registry σ) (es : List StyleElement) :
    Continues r (r.removeAll es) := removeAll_eq r es ▸ continues_relinquishAll r _

/-- An insertion keeps the identity and the settings and reports no leak, whether it succeeds or
not. The induction is on the tree. -/
theorem continues_insertions :
    (∀ (e : StyleElement) (r : Registry σ), Continues r (r.insertElement e).2) ∧
    ∀ (es : List StyleElement) (r : Registry σ) (done : List StyleElement),
      Continues r (r.insertAll done es).2 := by
  refine StyleElement.induct (fun cs owned ih r => ?_) (fun r done => .refl r)
    fun e es ihe ihes r done => ?_
  · rw [insertElement]
    have hcs := ih r []
    split
    · next hs => rw [hs] at hcs; exact hcs
    · next s hs =>
      rw [hs] at hcs
      cases owned with
      | none => exact hcs
      | some f =>
        have hf := continues_acquire s f
        simp only
        split
        · next hu => rw [hu] at hf; exact (hcs.trans hf).trans (continues_removeAll _ _)
        · next hu => rw [hu] at hf; exact hcs.trans hf
  · rw [insertAll]
    have he := ihe r
    split
    · next hs => rw [hs] at he; exact he.trans (continues_removeAll _ _)
    · next hs => rw [hs] at he; exact he.trans (ihes _ _)

theorem continues_insert (r : Registry σ) (e : StyleElement) : Continues r (r.insert e).2 := by
  have h := continues_insertions.1 e r
  rw [insert]
  split
  · next hs => rw [hs] at h; exact h
  · next hs => rw [hs] at h; exact h

theorem continues_release (r : Registry σ) (reg : Registration) : Continues r (r.release reg) := by
  rw [release]
  split
  · exact removeElement_eq r _ ▸ continues_relinquishAll r _
  · exact .of_log_eq_concat (n := .foreignRegistration reg.element) rfl rfl rfl rfl

/-- Inserting a rule that belongs to no class keeps the identity and the settings, too. -/
theorem continues_insertGlobal (r : Registry σ) (rule : StyleRule) :
    Continues r (r.insertGlobal rule).2 := by
  rw [insertGlobal]
  split
  · exact .of_log_eq rfl rfl rfl
  · next e s hs =>
    split
    · exact .of_log_eq rfl rfl rfl
    · exact .of_log_eq_concat (n := .globalSkipped rule e) rfl rfl rfl rfl

theorem continues_releaseGlobal (r : Registry σ) (reg : GlobalRegistration) :
    Continues r (r.releaseGlobal reg) := by
  rw [releaseGlobal]
  split
  · split <;> exact .of_log_eq rfl rfl rfl
  · exact .of_log_eq_concat (n := .foreignGlobal reg.rule) rfl rfl rfl rfl

/-! ## Rules without a class leave the classes alone -/

theorem insertGlobal_entries (r : Registry σ) (rule : StyleRule) :
    (r.insertGlobal rule).2.entries = r.entries := by
  rw [insertGlobal]
  split
  · rfl
  · split <;> rfl

theorem releaseGlobal_entries (r : Registry σ) (reg : GlobalRegistration) :
    (r.releaseGlobal reg).entries = r.entries := by
  rw [releaseGlobal]
  split
  · split <;> rfl
  · rfl

/-! ## What a registration says -/

/-- A registration names the registry that issued it and the element that was inserted. -/
theorem insert_ok {r t : Registry σ} {e : StyleElement} {reg : Registration}
    (h : r.insert e = (.ok reg, t)) :
    reg = ⟨r.id, e⟩ ∧ r.insertElement e = (.ok (), t) := by
  have hid := (continues_insertions.1 e r).id
  rw [insert] at h
  split at h
  · cases h
  · next hs =>
    rw [hs] at hid
    cases h
    exact ⟨by rw [hid], hs⟩

theorem insert_error {r t : Registry σ} {e : StyleElement} {err : RegistryError}
    (h : r.insert e = (.error err, t)) : r.insertElement e = (.error err, t) := by
  rw [insert] at h
  split at h
  · next hs => cases h; exact hs
  · cases h

/-- The registration of a global rule names the registry that issued it and the rule. -/
theorem insertGlobal_ok {r t : Registry σ} {rule : StyleRule} {reg : GlobalRegistration}
    (h : r.insertGlobal rule = (.ok reg, t)) : reg.registry = r.id ∧ reg.rule = rule := by
  rw [insertGlobal] at h
  split at h
  · cases h; exact ⟨rfl, rfl⟩
  · split at h
    · cases h
    · cases h; exact ⟨rfl, rfl⟩

end Registry

end ScopedCss
