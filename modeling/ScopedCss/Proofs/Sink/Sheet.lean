import Mathlib.Data.List.Basic
import ScopedCss.Sink.Sheet

/-!
# What a sheet takes

A sheet looks for one block that closes at the very end of a rule, with something in front of it that
is not blank. A text without braces does not change the depth of open blocks (`Balanced`), and neither
does a block inside a block. So every text that is built from a prelude and a block, or from a prelude
and a block in a block, is found without fault, as long as the pieces have no braces of their own.
-/

namespace ScopedCss

/-! ## Texts without braces -/

/-- Characters none of which is a brace. -/
def BraceFree (cs : List Char) : Prop := ∀ c ∈ cs, c ≠ '{' ∧ c ≠ '}'

instance : DecidablePred BraceFree := fun _ => List.decidableBAll _ _

/-- Characters that are not all blank. -/
def Visible (cs : List Char) : Prop := ∃ c ∈ cs, Text.isBlank c = false

instance : DecidablePred Visible := fun _ => List.decidableBEx _ _

theorem braceFree_nil : BraceFree [] := by
  intro c hc
  cases hc

theorem braceFree_append {cs ds : List Char} :
    BraceFree (cs ++ ds) ↔ BraceFree cs ∧ BraceFree ds := List.forall_mem_append

theorem braceFree_cons {c : Char} {cs : List Char} :
    BraceFree (c :: cs) ↔ (c ≠ '{' ∧ c ≠ '}') ∧ BraceFree cs := List.forall_mem_cons

/-- Characters of a class that has no braces in it. -/
theorem braceFree_of_forall (p : Char → Bool) {cs : List Char} (hopen : p '{' = false)
    (hclose : p '}' = false) (h : ∀ c ∈ cs, p c = true) : BraceFree cs := by
  intro c hc
  have hp : p c = true := h c hc
  constructor
  · rintro rfl
    rw [hopen] at hp
    cases hp
  · rintro rfl
    rw [hclose] at hp
    cases hp

theorem BraceFree.flatMap {α : Type} {as : List α} {f : α → List Char}
    (h : ∀ a ∈ as, BraceFree (f a)) : BraceFree (as.flatMap f) := by
  intro c hc
  obtain ⟨a, ha, hc⟩ := List.mem_flatMap.1 hc
  exact h a ha c hc

/-! ## The depth of open blocks -/

/-- Inside a block, the characters lead back to the depth at which they are met. -/
def Balanced (cs : List Char) : Prop :=
  ∀ depth offset rest, ∃ offset',
    braceFault (depth + 1) offset (cs ++ rest) = braceFault (depth + 1) offset' rest

/-- A text without braces is passed over by the reader at any depth, and only the offset moves on.
-/
theorem BraceFree.skip {cs : List Char} (h : BraceFree cs) (depth offset : Nat)
    (rest : List Char) :
    ∃ offset', braceFault depth offset (cs ++ rest) = braceFault depth offset' rest := by
  induction cs generalizing offset with
  | nil => exact ⟨offset, rfl⟩
  | cons c cs ih =>
    obtain ⟨⟨hopen, hclose⟩, hcs⟩ := braceFree_cons.1 h
    obtain ⟨offset', hrest⟩ := ih hcs (offset + c.utf8Size)
    refine ⟨offset', ?_⟩
    rw [List.cons_append, braceFault, if_neg hopen, if_neg hclose, hrest]

theorem BraceFree.balanced {cs : List Char} (h : BraceFree cs) : Balanced cs :=
  fun depth offset rest => h.skip (depth + 1) offset rest

/-- A block inside a block. -/
theorem Balanced.block {head body : List Char} (hhead : BraceFree head) (hbody : Balanced body) :
    Balanced (head ++ '{' :: (body ++ ['}'])) := by
  intro depth offset rest
  obtain ⟨o₁, h₁⟩ := hhead.skip (depth + 1) offset ('{' :: (body ++ '}' :: rest))
  obtain ⟨o₂, h₂⟩ := hbody (depth + 1) (o₁ + 1) ('}' :: rest)
  refine ⟨o₂ + 1, ?_⟩
  have hsplit : head ++ '{' :: (body ++ ['}']) ++ rest = head ++ '{' :: (body ++ '}' :: rest) := by
    simp
  have hopen : braceFault (depth + 1) o₁ ('{' :: (body ++ '}' :: rest)) =
      braceFault (depth + 2) (o₁ + 1) (body ++ '}' :: rest) := by
    rw [braceFault, if_pos rfl]
  have hclose : braceFault (depth + 2) o₂ ('}' :: rest) = braceFault (depth + 1) (o₂ + 1) rest := by
    rw [braceFault, if_neg (by decide), if_pos rfl, if_neg (by omega), if_neg (by omega)]
    rfl
  rw [hsplit, h₁, hopen, h₂, hclose]

/-- One block that closes at the very end. -/
theorem braceFault_block {head body : List Char} (hhead : BraceFree head) (hbody : Balanced body) :
    braceFault 0 0 (head ++ '{' :: (body ++ ['}'])) = none := by
  obtain ⟨o₁, h₁⟩ := hhead.skip 0 0 ('{' :: (body ++ ['}']))
  obtain ⟨o₂, h₂⟩ := hbody 0 (o₁ + 1) ['}']
  have hopen : braceFault 0 o₁ ('{' :: (body ++ ['}'])) = braceFault 1 (o₁ + 1) (body ++ ['}']) := by
    rw [braceFault, if_pos rfl]
  have hclose : braceFault 1 o₂ ['}'] = none := by
    rw [braceFault, if_neg (by decide), if_pos rfl, if_neg (by omega), if_neg (by simp)]
    rfl
  rw [h₁, hopen, h₂, hclose]

/-! ## Trimmed texts -/

/-- Of a text with something visible in it, taking the blanks off the front leaves something
visible. -/
theorem all_isBlank_dropWhile {cs : List Char} (h : Visible cs) :
    (cs.dropWhile Text.isBlank).all Text.isBlank = false := by
  obtain ⟨c, hc, hblank⟩ := h
  rw [Bool.eq_false_iff]
  intro hall
  have hsplit : cs.takeWhile Text.isBlank ++ cs.dropWhile Text.isBlank = cs :=
    List.takeWhile_append_dropWhile
  rw [← hsplit] at hc
  rcases List.mem_append.1 hc with hc | hc
  · rw [List.all_eq_true.1 List.all_takeWhile c hc] at hblank
    cases hblank
  · rw [List.all_eq_true.1 hall c hc] at hblank
    cases hblank

/-- Blanks are dropped in front only, if the text ends with a brace. -/
theorem trim_append_close {head : List Char} (h : Visible head) (rest : List Char) :
    Text.trim (head ++ (rest ++ ['}'])) = head.dropWhile Text.isBlank ++ (rest ++ ['}']) := by
  have hne : (head.dropWhile Text.isBlank).isEmpty = false := by
    have hall := all_isBlank_dropWhile h
    cases hdrop : head.dropWhile Text.isBlank with
    | nil =>
      rw [hdrop] at hall
      cases hall
    | cons c cs => rfl
  have hfront : (head ++ (rest ++ ['}'])).dropWhile Text.isBlank =
      head.dropWhile Text.isBlank ++ (rest ++ ['}']) := by
    rw [List.dropWhile_append, hne]
    rfl
  rw [Text.trim, hfront, ← List.append_assoc, List.reverse_append, List.reverse_singleton,
    List.singleton_append, List.dropWhile_cons_of_neg (by decide)]
  simp

/-- A prelude that is not blank and a block make a rule. -/
theorem ruleFault_block {rule : StyleRule} {head body : List Char}
    (htext : rule.text.toList = head ++ '{' :: (body ++ ['}'])) (hhead : BraceFree head)
    (hvisible : Visible head) (hbody : Balanced body) : ruleFault rule = none := by
  have htrim : Text.trim rule.text.toList =
      head.dropWhile Text.isBlank ++ '{' :: (body ++ ['}']) := by
    rw [htext]
    exact trim_append_close hvisible ('{' :: body)
  have hhead' : BraceFree (head.dropWhile Text.isBlank) :=
    fun c hc => hhead c ((List.dropWhile_sublist _).subset hc)
  have hprelude : (head.dropWhile Text.isBlank ++ '{' :: (body ++ ['}'])).takeWhile (· ≠ '{') =
      head.dropWhile Text.isBlank := by
    rw [List.takeWhile_append_of_pos fun c hc => decide_eq_true (hhead' c hc).1,
      List.takeWhile_cons_of_neg (by simp), List.append_nil]
  unfold ruleFault
  rw [htrim, if_neg (by simp), if_neg (by simp), hprelude, all_isBlank_dropWhile hvisible,
    if_neg (by simp)]
  exact braceFault_block hhead' hbody

/-! ## Regions -/

namespace SheetSink

/-- The sheet with one more rule, in the region of the at-rules if the text `lead` begins with an
at-sign and with the other rules if not. -/
def placed (s : SheetSink) (lead : String) (rule : StyleRule) : SheetSink :=
  if lead.toList.head? = some '@' then
    { s with atRules := s.atRules ++ [(⟨s.next⟩, rule)], next := s.next + 1 }
  else { s with base := s.base ++ [(⟨s.next⟩, rule)], next := s.next + 1 }

/-- An attached sheet takes every rule without fault. To place it, only the first character of the
text is needed, so any lead that agrees on it will do. -/
theorem add_eq_placed {s : SheetSink} {rule : StyleRule} {lead : String}
    (hs : s.attached = true) (hrule : ruleFault rule = none)
    (hlead : rule.text.toList.head? = some '@' ↔ lead.toList.head? = some '@') :
    s.add rule = (.ok ⟨s.next⟩, s.placed lead rule) := by
  have hat : rule.isAtRule = decide (lead.toList.head? = some '@') := by
    rw [StyleRule.isAtRule]
    exact decide_eq_decide.2 hlead
  unfold add placed
  rw [hs, hrule, hat]
  by_cases h : lead.toList.head? = some '@'
  · simp [h]
  · simp [h]

theorem attached_placed (s : SheetSink) (lead : String) (rule : StyleRule) :
    (s.placed lead rule).attached = s.attached := by
  unfold placed
  split <;> rfl

end SheetSink

end ScopedCss
