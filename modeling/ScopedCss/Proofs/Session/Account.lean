import Mathlib.Data.List.Basic
import ScopedCss.Proofs.Session.Claims
import ScopedCss.Session.Basic

/-!
# The account of the guards

A bystander who sees what is called and what comes of it, and knows when the registry is in use,
can keep an account of what the guards stand for. A guard enters the account when it is obtained,
and leaves it when it ends while the registry is free. A guard that ends while the registry is in
use stays in the account, since its registration is lost. What a sink does when it is asked for
something never shows in the account.

The account is settled with a session if it agrees with the guards that are left and the notices
about those that were lost.
-/

namespace ScopedCss

/-- What some guards stand for: elements that are inserted, and global rules that are held. -/
structure Account where
  /-- The elements. -/
  elements : List StyleElement
  /-- The global rules, with their handles. -/
  rules : HeldRules

namespace Account

/-- The account of no guard. -/
def empty : Account := ⟨[], []⟩

/-- The account with what `m` stands for as well. -/
def add (l m : Account) : Account := ⟨m.elements ++ l.elements, m.rules ++ l.rules⟩

/-- The account without what `m` stands for. -/
def sub (l m : Account) : Account := ⟨l.elements.diff m.elements, l.rules.diff m.rules⟩

end Account

/-- What a guard stands for, if there is one. -/
def Desk.guardAccount (d : Desk) (n : Nat) : Account :=
  ⟨(d.guard? n).toList.map StyleGuard.element, []⟩

/-- What a global guard stands for, if there is one. -/
def Desk.globalAccount (d : Desk) (n : Nat) : Account :=
  ⟨[], (d.global? n).toList.flatMap GlobalGuard.held⟩

namespace Desk

variable {d : Desk} {n : Nat}

theorem guardAccount_of_none (h : d.guard? n = none) : d.guardAccount n = .empty := by
  rw [guardAccount, h]
  rfl

theorem guardAccount_of_some {g : StyleGuard} (h : d.guard? n = some g) :
    d.guardAccount n = ⟨[g.element], []⟩ := by
  rw [guardAccount, h]
  rfl

theorem globalAccount_of_none (h : d.global? n = none) : d.globalAccount n = .empty := by
  rw [globalAccount, h]
  rfl

theorem globalAccount_of_some {g : GlobalGuard} (h : d.global? n = some g) :
    d.globalAccount n = ⟨[], g.held⟩ := by
  rw [globalAccount, h]
  exact congrArg (Account.mk []) (List.append_nil g.held)

end Desk

namespace SessionOutcome

variable {σ : Type}

/-- The failure of the call, if it has failed. -/
def error? : SessionOutcome σ → Option SessionError
  | .failed e => some e
  | .reentered _ (.failed e) => some e
  | _ => none

/-- What came of the call that the source of the inputs has made, with the session after it. -/
def inner? : SessionOutcome σ → Option (SessionOutcome σ × Session σ)
  | .reentered inner _ => inner
  | _ => none

/-- The session on which the call itself has begun to work: the one it was given, or the one that
the source of its inputs has left. -/
def before (s : Session σ) (o : SessionOutcome σ) : Session σ := o.inner?.elim s Prod.snd

/-- What the guard stands for that the call has brought, if it has brought one. -/
def obtained : SessionOutcome σ → Account
  | .used _ g => ⟨[g.element], []⟩
  | .injected _ _ g => ⟨[], g.held⟩
  | _ => .empty

end SessionOutcome

namespace Account

variable {σ : Type}

/-- Enters a call on the session `s` and what has come of it into the account. -/
def record (busy : Busy) (s : Session σ) (l : Account) : SessionAction → SessionOutcome σ → Account
  | .release n, _ | .drop n, _ =>
    if busy.registry = .free then l.sub (s.desk.guardAccount n) else l
  | .dropGlobal n, _ =>
    if busy.registry = .free then l.sub (s.desk.globalAccount n) else l
  | .reenter _ _ inner, .reentered (some (o, _)) outer =>
    (record { busy with compiler := true } s l inner o).add outer.obtained
  | _, o => l.add o.obtained
termination_by structural a => a

/-- Nothing is recorded of a re-entrant call but what it has brought, if the inner call was not
reached. -/
theorem record_reenter {o : SessionOutcome σ} (h : o.inner? = none) (busy : Busy) (s : Session σ)
    (l : Account) (use : Bool) (inputs : List SessionInput) (inner : SessionAction) :
    l.record busy s (.reenter use inputs inner) o = l.add o.obtained := by
  cases o with
  | reentered i outer =>
    obtain rfl : i = none := h
    rfl
  | _ => rfl

/-- The account agrees with the guards that are left and the notices about those that are lost. -/
def Settled (l : Account) (s : Session σ) : Prop :=
  l.elements.Perm s.desk.claims ∧ l.rules.Perm s.desk.ruleClaims

/-- What has been put in front can be taken away again. -/
theorem diff_perm {α : Type} [BEq α] [LawfulBEq α] {l m as : List α} (h : l.Perm (as ++ m)) :
    (l.diff as).Perm m := by
  induction as generalizing l with
  | nil => exact h
  | cons a as ih =>
    rw [List.diff_cons]
    refine ih ?_
    have he := h.erase a
    rw [List.cons_append, List.erase_cons_head] at he
    exact he

namespace Settled

variable {l : Account} {s t : Session σ} {m : Account}

/-- The claims have grown. -/
theorem add (h : Settled l s) (hclaims : t.desk.claims.Perm (m.elements ++ s.desk.claims))
    (hrules : t.desk.ruleClaims.Perm (m.rules ++ s.desk.ruleClaims)) : Settled (l.add m) t :=
  ⟨(h.1.append_left m.elements).trans hclaims.symm, (h.2.append_left m.rules).trans hrules.symm⟩

/-- The claims have shrunk. -/
theorem sub (h : Settled l s) (hclaims : s.desk.claims.Perm (m.elements ++ t.desk.claims))
    (hrules : s.desk.ruleClaims.Perm (m.rules ++ t.desk.ruleClaims)) : Settled (l.sub m) t :=
  ⟨diff_perm (h.1.trans hclaims), diff_perm (h.2.trans hrules)⟩

end Settled

end Account

end ScopedCss
