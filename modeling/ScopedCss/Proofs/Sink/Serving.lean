import Mathlib.Data.List.Nodup
import ScopedCss.Proofs.Sink.Taking
import ScopedCss.Sink.Recorded

/-!
# Calls on a sink

What a registry does to its sink is a list of calls with their answers. From such a list alone one
can tell which rules the sink has issued handles for, and which handles it has been given back. If
nothing is given back that was not issued before (`Backed`), then a lawful sink holds exactly what it
has issued since it was last cleared and not got back (`Faithful`): handles are never issued twice, so
a handle that was issued before the clearing and comes back late hits nothing.
-/

namespace ScopedCss

namespace SinkCall

/-- The rule that the sink takes, with its handle. -/
def issued : SinkCall → Option (Handle × StyleRule)
  | .add handle rule | .addGlobal handle rule => handle.map fun h => (h, rule)
  | .retract _ => none

/-- The handle that the sink is given back. -/
def retracted : SinkCall → Option Handle
  | .add .. | .addGlobal .. => none
  | .retract h => some h

end SinkCall

/-- The rules that the sink takes in the course of some calls, with their handles. -/
def issuedIn (calls : List SinkCall) : HeldRules := calls.filterMap SinkCall.issued

/-- The handles that the sink is given back in the course of some calls. -/
def retractedIn (calls : List SinkCall) : List Handle := calls.filterMap SinkCall.retracted

@[simp] theorem issuedIn_append (cs ds : List SinkCall) :
    issuedIn (cs ++ ds) = issuedIn cs ++ issuedIn ds := List.filterMap_append

@[simp] theorem retractedIn_append (cs ds : List SinkCall) :
    retractedIn (cs ++ ds) = retractedIn cs ++ retractedIn ds := List.filterMap_append

@[simp] theorem issuedIn_map_retract (handles : List Handle) :
    issuedIn (handles.map .retract) = [] := by
  simp [issuedIn, SinkCall.issued]

@[simp] theorem retractedIn_map_retract (handles : List Handle) :
    retractedIn (handles.map .retract) = handles := by
  induction handles with
  | nil => rfl
  | cons h handles ih => exact congrArg (h :: ·) ih

/-! ## Backed calls -/

/-- Whatever handle is given back has been issued before. -/
def Backed (calls : List SinkCall) : Prop :=
  ∀ before h after, calls = before ++ .retract h :: after → h ∈ (issuedIn before).map Prod.fst

namespace Backed

variable {cs ds : List SinkCall}

theorem nil : Backed [] := by
  intro before h after e
  cases before <;> cases e

theorem of_append (h : Backed (cs ++ ds)) : Backed cs := by
  intro before handle after e
  exact h before handle (after ++ ds) (by rw [e]; simp)

/-- Calls that give nothing back unissued do so for every handle, wherever among the calls it is
given back. -/
theorem subset_issued (h : Backed cs) {handle : Handle} (hr : handle ∈ retractedIn cs) :
    handle ∈ (issuedIn cs).map Prod.fst := by
  obtain ⟨c, hc, hret⟩ := List.mem_filterMap.1 hr
  obtain ⟨before, after, rfl⟩ := List.append_of_mem hc
  cases c with
  | add _ _ => cases hret
  | addGlobal _ _ => cases hret
  | retract _ =>
    cases hret
    rw [issuedIn_append, List.map_append]
    exact List.mem_append_left _ (h before handle after rfl)

/-- More calls, in which nothing is given back but what has been issued already. -/
theorem append (h : Backed cs) (hd : ∀ handle ∈ retractedIn ds, handle ∈ (issuedIn cs).map Prod.fst) :
    Backed (cs ++ ds) := by
  intro before handle after e
  rcases List.append_eq_append_iff.1 e with ⟨before', rfl, rfl⟩ | ⟨after', rfl, hcs⟩
  · rw [issuedIn_append, List.map_append]
    refine List.mem_append_left _ (hd handle ?_)
    rw [retractedIn_append]
    exact List.mem_append_right _ List.mem_cons_self
  · cases after' with
    | nil =>
      rw [List.nil_append] at hcs
      subst hcs
      rw [List.append_nil] at hd
      exact hd handle List.mem_cons_self
    | cons c after' =>
      obtain ⟨rfl, -⟩ := List.cons.inj hcs
      exact h before handle after' rfl

end Backed

/-! ## Who has the handles -/

/-- Every handle that has been issued is owned by somebody, or has been given back, and nothing is
given back that was not issued before. -/
structure Custody (calls : List SinkCall) (owned : List Handle) : Prop where
  backed : Backed calls
  issued_perm : ((issuedIn calls).map Prod.fst).Perm (owned ++ retractedIn calls)

namespace Custody

variable {calls cs : List SinkCall} {owned owned' handles : List Handle}

theorem nil : Custody [] [] := ⟨.nil, .refl _⟩

theorem perm (h : Custody calls owned) (hp : owned.Perm owned') : Custody calls owned' :=
  ⟨h.backed, h.issued_perm.trans (hp.append_right _)⟩

/-- Calls in which nothing is given back: what they issue is owned from then on. -/
theorem take (h : Custody calls owned) (hcs : retractedIn cs = [])
    (hissued : (issuedIn cs).map Prod.fst = handles) :
    Custody (calls ++ cs) (handles ++ owned) := by
  refine ⟨h.backed.append fun handle hm => ?_, ?_⟩
  · rw [hcs] at hm
    cases hm
  · rw [issuedIn_append, List.map_append, hissued, retractedIn_append, hcs, List.append_nil,
      List.append_assoc]
    exact List.perm_append_comm.trans (h.issued_perm.append_left handles)

theorem offerGlobal (h : Custody calls owned) (handle : Option Handle) (rule : StyleRule) :
    Custody (calls ++ [.addGlobal handle rule]) (owned ++ handle.toList) := by
  have hissued : (issuedIn [.addGlobal handle rule]).map Prod.fst = handle.toList := by
    cases handle with
    | none => rfl
    | some handle => rfl
  exact (h.take rfl hissued).perm List.perm_append_comm

/-- Whoever owns handles can give some of them back and is left with the others. -/
theorem giveBack (h : Custody calls owned) (hp : owned.Perm (handles ++ owned')) :
    Custody (calls ++ handles.map .retract) owned' := by
  refine ⟨h.backed.append fun handle hm => ?_, ?_⟩
  · rw [retractedIn_map_retract] at hm
    refine h.issued_perm.mem_iff.2 (List.mem_append_left _ (hp.mem_iff.2 ?_))
    exact List.mem_append_left _ hm
  · rw [issuedIn_append, issuedIn_map_retract, List.append_nil, retractedIn_append,
      retractedIn_map_retract, ← List.append_assoc]
    have hsplit : (owned ++ retractedIn calls).Perm (handles ++ owned' ++ retractedIn calls) :=
      hp.append_right _
    refine (h.issued_perm.trans hsplit).trans ?_
    rw [List.append_assoc]
    exact List.perm_append_comm

end Custody

/-! ## Serving calls -/

/-- The sink is called and gives these answers, and is another sink then. -/
inductive Serves {σ : Type} [Sink σ] : σ → List SinkCall → σ → Prop where
  /-- It is not called. -/
  | nil (s : σ) : Serves s [] s
  /-- It is offered a rule of a class, and then called again. -/
  | add {s t u : σ} {rule : StyleRule} {answer : Except SinkError Handle} {cs : List SinkCall}
      (head : Sink.add s rule = (answer, t)) (tail : Serves t cs u) :
      Serves s (.add answer.toOption rule :: cs) u
  /-- It is offered a rule that belongs to no class, and then called again. -/
  | addGlobal {s t u : σ} {rule : StyleRule} {answer : Except SinkError Handle}
      {cs : List SinkCall} (head : Sink.addGlobal s rule = (answer, t)) (tail : Serves t cs u) :
      Serves s (.addGlobal answer.toOption rule :: cs) u
  /-- It is given a handle back, and then called again. -/
  | retract {s u : σ} {h : Handle} {cs : List SinkCall} (tail : Serves (Sink.retract s h) cs u) :
      Serves s (.retract h :: cs) u

namespace Serves

variable {σ : Type} [Sink σ] {s t u : σ} {cs ds : List SinkCall}

theorem append (h : Serves s cs t) (h' : Serves t ds u) : Serves s (cs ++ ds) u := by
  induction h with
  | nil s => exact h'
  | add head _ ih => exact .add head (ih h')
  | addGlobal head _ ih => exact .addGlobal head (ih h')
  | retract _ ih => exact .retract (ih h')

theorem retractAll (s : σ) (handles : List Handle) :
    Serves s (handles.map .retract) (Sink.retractAll s handles) := by
  induction handles generalizing s with
  | nil => exact .nil s
  | cons h handles ih => exact .retract (ih (Sink.retract s h))

/-- A recorded sink writes down the calls, and lets the sink in it serve them. -/
theorem recorded {s t : Recorded σ} (h : Serves s cs t) :
    t.calls = s.calls ++ cs ∧ Serves s.sink cs t.sink := by
  induction h with
  | nil s => exact ⟨(List.append_nil _).symm, .nil _⟩
  | @add s t u rule answer cs head _ ih =>
    obtain ⟨hcalls, hserves⟩ := ih
    cases head
    exact ⟨hcalls.trans (List.append_assoc ..), .add rfl hserves⟩
  | @addGlobal s t u rule answer cs head _ ih =>
    obtain ⟨hcalls, hserves⟩ := ih
    cases head
    exact ⟨hcalls.trans (List.append_assoc ..), .addGlobal rfl hserves⟩
  | @retract s u h cs _ ih =>
    obtain ⟨hcalls, hserves⟩ := ih
    exact ⟨hcalls.trans (List.append_assoc ..), .retract hserves⟩

end Serves

/-! ## What a lawful sink holds -/

/-- With distinct handles, giving up a rule leaves those with other handles. -/
theorem HeldRules.retract_eq_filter {held : HeldRules} (hn : (held.map Prod.fst).Nodup) (h : Handle) :
    held.retract h = held.filter fun p => p.1 ≠ h := by
  induction held with
  | nil => rfl
  | cons p held ih =>
    obtain ⟨hp, hn⟩ := List.nodup_cons.1 hn
    by_cases e : p.1 = h
    · have hother : ∀ q ∈ held, decide (q.1 ≠ h) = true := by
        intro q hq
        refine decide_eq_true fun e' => hp ?_
        rw [e, ← e']
        exact List.mem_map_of_mem hq
      simp only [HeldRules.retract, ne_eq, decide_not] at hother ⊢
      simp [e, List.filter_eq_self.2 hother]
    · have ih := ih hn
      simp only [HeldRules.retract, ne_eq, decide_not] at ih ⊢
      simp [e, ih]

namespace LawfulSink

variable {σ : Type} [Sink σ] [LawfulSink σ]

/-- After some calls, of which those in `since` have come since it was last cleared, the sink holds
what it has issued since then and not got back. -/
structure Faithful (earlier since : List SinkCall) (s : σ) : Prop where
  issued_nodup : ((issuedIn (earlier ++ since)).map Prod.fst).Nodup
  issued_lt : ∀ p ∈ issuedIn (earlier ++ since), p.1.id < next s
  held_perm : (held s).Perm ((issuedIn since).filter fun p => p.1 ∉ retractedIn (earlier ++ since))

namespace Faithful

variable {earlier since cs : List SinkCall} {s t : σ}

theorem nil (h : held s = []) : Faithful [] [] s := by
  refine ⟨List.nodup_nil, fun p hp => ?_, ?_⟩
  · cases hp
  · rw [h]
    exact .refl _

theorem of_held_eq (h : Faithful earlier since s) (hnext : next t = next s) (hheld : held t = held s) :
    Faithful earlier since t := by
  refine ⟨h.issued_nodup, ?_, ?_⟩
  · rw [hnext]
    exact h.issued_lt
  · rw [hheld]
    exact h.held_perm

/-- The account of a sink that has been emptied starts anew: what was issued earlier cannot be issued
again, and counts only as earlier. -/
theorem cleared (h : Faithful earlier since s) (hnext : next t = next s) (hheld : held t = []) :
    Faithful (earlier ++ since) [] t := by
  refine ⟨?_, ?_, ?_⟩
  · rw [List.append_nil]
    exact h.issued_nodup
  · rw [List.append_nil, hnext]
    exact h.issued_lt
  · rw [hheld]
    exact .refl _

theorem held_nodup (h : Faithful earlier since s) : ((held s).map Prod.fst).Nodup := by
  rw [(h.held_perm.map Prod.fst).nodup_iff]
  refine h.issued_nodup.sublist (List.Sublist.map _ (List.filter_sublist.trans ?_))
  rw [issuedIn_append]
  exact List.sublist_append_right _ _

/-- A rule that is taken is issued under a number that has never been issued. In particular it has
not been given back earlier, so it is among the rules that the sink should hold. -/
theorem take (h : Faithful earlier since s) (hb : Backed (earlier ++ since)) {rule : StyleRule}
    {handle : Handle} (hadd : Sink.add s rule = (.ok handle, t)) {c : SinkCall}
    (hc : c.issued = some (handle, rule)) (hc' : c.retracted = none) :
    Faithful earlier (since ++ [c]) t := by
  obtain ⟨hid, hnext, -⟩ := add_ok hadd
  have hissued : issuedIn [c] = [(handle, rule)] := by simp [issuedIn, hc]
  have hretracted : retractedIn [c] = [] := by simp [retractedIn, hc']
  -- The handle is a new one, and so it is not among those that have been given back either, late or
  -- not: nothing is given back that was not issued before.
  have hnew : handle ∉ (issuedIn (earlier ++ since)).map Prod.fst := by
    intro hm
    obtain ⟨p, hp, rfl⟩ := List.mem_map.1 hm
    have hlt := h.issued_lt p hp
    omega
  have hkept : handle ∉ retractedIn (earlier ++ since) := fun hr => hnew (hb.subset_issued hr)
  refine ⟨?_, fun p hp => ?_, ?_⟩
  · rw [← List.append_assoc, issuedIn_append, hissued, List.map_append, List.map_singleton,
      ← List.concat_eq_append, List.nodup_concat]
    exact ⟨hnew, h.issued_nodup⟩
  · rw [← List.append_assoc, issuedIn_append, hissued] at hp
    rw [hnext]
    rcases List.mem_append.1 hp with hp | hp
    · exact Nat.lt_succ_of_lt (h.issued_lt p hp)
    · obtain rfl := List.mem_singleton.1 hp
      exact hid ▸ Nat.lt_succ_self _
  · have hone : [(handle, rule)].filter (fun p => p.1 ∉ retractedIn (earlier ++ since)) =
        [(handle, rule)] := List.filter_cons_of_pos (decide_eq_true hkept)
    rw [← List.append_assoc, retractedIn_append, hretracted, List.append_nil, issuedIn_append,
      hissued, List.filter_append, hone]
    have hheld := (WellNumbered.held_add hadd).trans (h.held_perm.cons (handle, rule))
    exact hheld.trans (List.perm_append_singleton _ _).symm

/-- A call that issues nothing and gives nothing back changes nothing in the account of a sink. -/
theorem refuse (h : Faithful earlier since s) {c : SinkCall} (hc : c.issued = none)
    (hc' : c.retracted = none) : Faithful earlier (since ++ [c]) s := by
  have hissued : issuedIn [c] = [] := by simp [issuedIn, hc]
  have hretracted : retractedIn [c] = [] := by simp [retractedIn, hc']
  refine ⟨?_, ?_, ?_⟩ <;> simp only [← List.append_assoc earlier] <;>
    rw [issuedIn_append, hissued, List.append_nil]
  · exact h.issued_nodup
  · exact h.issued_lt
  · rw [retractedIn_append, hretracted, List.append_nil]
    exact h.held_perm

/-- The sink is given a handle back, whether it still holds a rule under it or not. -/
theorem retract (h : Faithful earlier since s) (handle : Handle) :
    Faithful earlier (since ++ [.retract handle]) (Sink.retract s handle) := by
  have hissued : issuedIn [.retract handle] = [] := rfl
  have hretracted : retractedIn [.retract handle] = [handle] := rfl
  refine ⟨?_, ?_, ?_⟩ <;> simp only [← List.append_assoc earlier] <;>
    rw [issuedIn_append, hissued, List.append_nil]
  · exact h.issued_nodup
  · rw [next_retract]
    exact h.issued_lt
  · rw [held_retract, HeldRules.retract_eq_filter h.held_nodup, retractedIn_append, hretracted]
    refine (h.held_perm.filter _).trans (.of_eq ?_)
    generalize retractedIn (earlier ++ since) = gone
    rw [List.filter_filter]
    refine List.filter_congr fun p _ => ?_
    simp [and_comm]

/-- The sink is offered a rule, and the call tells the answer. -/
theorem offer (h : Faithful earlier since s) (hb : Backed (earlier ++ since)) {rule : StyleRule}
    {answer : Except SinkError Handle} (hadd : Sink.add s rule = (answer, t)) {c : SinkCall}
    (hc : c.issued = answer.toOption.map fun h => (h, rule)) (hc' : c.retracted = none) :
    Faithful earlier (since ++ [c]) t := by
  cases answer with
  | ok handle => exact h.take hb hadd hc hc'
  | error e =>
    rw [add_error hadd]
    exact h.refuse hc hc'

/-- Serving calls one after the other keeps the account of a sink in order, as long as nothing comes
back that was not issued. -/
theorem serves (h : Faithful earlier since s) (hs : Serves s cs t)
    (hb : Backed (earlier ++ since ++ cs)) : Faithful earlier (since ++ cs) t := by
  induction hs generalizing since with
  | nil s =>
    rw [List.append_nil]
    exact h
  | @add s t u rule answer cs head _ ih =>
    rw [List.append_cons] at hb ⊢
    exact ih (h.offer hb.of_append.of_append head rfl rfl) (by rwa [← List.append_assoc])
  | @addGlobal s t u rule answer cs head _ ih =>
    rw [List.append_cons] at hb ⊢
    rw [addGlobal_eq] at head
    exact ih (h.offer hb.of_append.of_append head rfl rfl) (by rwa [← List.append_assoc])
  | @retract s u handle cs _ ih =>
    rw [List.append_cons] at hb ⊢
    exact ih (h.retract handle) (by rwa [← List.append_assoc])

/-- A handle is owned by one owner only and given back at most once, and the sink holds what it has
issued since it was last cleared under a handle that is owned. -/
theorem held_perm_owned (h : Faithful earlier since s) {owned : List Handle}
    (hc : Custody (earlier ++ since) owned) :
    owned.Nodup ∧ (retractedIn (earlier ++ since)).Nodup ∧
      (held s).Perm ((issuedIn since).filter fun p => p.1 ∈ owned) := by
  have hn := h.issued_nodup
  rw [hc.issued_perm.nodup_iff, List.nodup_append] at hn
  obtain ⟨howned, hgone, hdisjoint⟩ := hn
  refine ⟨howned, hgone, h.held_perm.trans (.of_eq (List.filter_congr fun p hp => ?_))⟩
  have hmem : p.1 ∈ owned ++ retractedIn (earlier ++ since) := by
    refine hc.issued_perm.mem_iff.1 (List.mem_map_of_mem ?_)
    rw [issuedIn_append]
    exact List.mem_append_right _ hp
  refine decide_eq_decide.2 ⟨fun hkept => ?_, fun hown hret => hdisjoint _ hown _ hret rfl⟩
  exact (List.mem_append.1 hmem).resolve_right hkept

end Faithful

end LawfulSink

end ScopedCss
