import ScopedCss.Proofs.Sink.Regions
import ScopedCss.Proofs.Sink.Sheet

/-!
# The grammar of rules

A sheet reads the text of a rule once, from left to right, and counts open blocks. What it takes can be
said without the count: a prelude that has no braces and is not blank, and one block in which the
braces match. `Closes` carries the induction. Inside a block, at a depth of `depth + 1`, the rest of the
text is found without fault exactly if it closes `depth` blocks and then, with its last character, one
more.

The count itself is always what it stands for, the number of opened braces less the number of closed
ones, and never would have to go below zero: a brace that closes nothing ends the reading.
-/

namespace ScopedCss

/-! ## Texts that close blocks -/

theorem count_cons_eq_add (b c : Char) (cs : List Char) :
    (c :: cs).count b = [c].count b + cs.count b := by
  rw [← List.singleton_append, List.count_append]

/-- The text closes `depth` blocks more than it opens, and no part of it from the start on closes more
than that. -/
structure Closes (depth : Nat) (cs : List Char) : Prop where
  prefixes : ∀ ds, ds <+: cs → ds.count '}' ≤ ds.count '{' + depth
  whole : cs.count '}' = cs.count '{' + depth

/-- An empty text closes as many blocks as are open only if none is. -/
theorem closes_nil {depth : Nat} : Closes depth [] ↔ depth = 0 := by
  constructor
  · intro h
    have hwhole := h.whole
    simp only [List.count_nil] at hwhole
    omega
  · rintro rfl
    refine ⟨fun ds hds => ?_, rfl⟩
    rw [List.prefix_nil.1 hds]
    exact Nat.le_refl _

/-- A character in front changes the number of blocks that are left to close. -/
theorem closes_cons {depth depth' : Nat} {c : Char} {cs : List Char}
    (h : depth' + [c].count '}' = depth + [c].count '{') :
    Closes depth (c :: cs) ↔ Closes depth' cs := by
  have hopened := count_cons_eq_add '{' c
  have hclosed := count_cons_eq_add '}' c
  constructor
  · intro hc
    refine ⟨fun ds hds => ?_, ?_⟩
    · have hle := hc.prefixes (c :: ds) (List.cons_prefix_cons.2 ⟨rfl, hds⟩)
      rw [hopened, hclosed] at hle
      omega
    · have heq := hc.whole
      rw [hopened, hclosed] at heq
      omega
  · intro hc
    refine ⟨fun ds hds => ?_, ?_⟩
    · rcases List.prefix_cons_iff.1 hds with rfl | ⟨es, rfl, hes⟩
      · exact Nat.zero_le _
      · have hle := hc.prefixes es hes
        rw [hopened, hclosed]
        omega
    · have heq := hc.whole
      rw [hopened, hclosed]
      omega

theorem closes_open {depth : Nat} {cs : List Char} :
    Closes depth ('{' :: cs) ↔ Closes (depth + 1) cs := closes_cons rfl

theorem closes_close {depth : Nat} {cs : List Char} :
    Closes (depth + 1) ('}' :: cs) ↔ Closes depth cs := closes_cons rfl

theorem not_closes_zero_close {cs : List Char} : ¬ Closes 0 ('}' :: cs) := by
  intro h
  have hle := h.prefixes ['}'] (List.cons_prefix_cons.2 ⟨rfl, List.nil_prefix⟩)
  exact absurd hle (by decide)

theorem closes_other {depth : Nat} {c : Char} {cs : List Char} (hopen : c ≠ '{') (hclose : c ≠ '}') :
    Closes depth (c :: cs) ↔ Closes depth cs := by
  refine closes_cons ?_
  rw [List.count_singleton, List.count_singleton, if_neg (by simpa using hclose),
    if_neg (by simpa using hopen)]

/-! ## One block -/

/-- A text that ends in a closing brace, taken apart at its first character: it is the brace alone,
or the character stands in front of a text that ends so. -/
theorem exists_cons_eq_append_close {P : List Char → Prop} {c : Char} {cs : List Char} :
    (∃ body, c :: cs = body ++ ['}'] ∧ P body) ↔
      (c = '}' ∧ cs = [] ∧ P []) ∨ ∃ body, cs = body ++ ['}'] ∧ P (c :: body) := by
  constructor
  · rintro ⟨body, e, hbody⟩
    rcases List.cons_eq_append_iff.1 e with ⟨rfl, e⟩ | ⟨body', rfl, rfl⟩
    · cases e
      exact .inl ⟨rfl, rfl, hbody⟩
    · exact .inr ⟨body', rfl, hbody⟩
  · rintro (⟨rfl, rfl, hbody⟩ | ⟨body, rfl, hbody⟩)
    · exact ⟨[], rfl, hbody⟩
    · exact ⟨c :: body, rfl, hbody⟩

/-- What stands inside a block is found without fault exactly if it closes the inner blocks and then
ends with the brace that closes the outermost one. The induction is on the text, with the depth
general: a brace opens or closes one block, and every other character leaves the depth as it is. -/
theorem braceFault_inside_eq_none_iff (depth offset : Nat) (cs : List Char) :
    braceFault (depth + 1) offset cs = none ↔ ∃ body, cs = body ++ ['}'] ∧ Closes depth body := by
  induction cs generalizing depth offset with
  | nil => simp [braceFault]
  | cons c cs ih =>
    rw [exists_cons_eq_append_close, braceFault]
    by_cases hopen : c = '{'
    · subst hopen
      simp only [if_true, ih, closes_open]
      simp
    · rw [if_neg hopen]
      by_cases hclose : c = '}'
      · subst hclose
        rw [if_pos rfl, if_neg (by omega)]
        cases depth with
        | zero =>
          -- The outermost block is closed here, so nothing may follow.
          by_cases hcs : cs = []
          · subst hcs
            simp [braceFault, closes_nil]
          · simp [hcs, not_closes_zero_close]
        | succ depth =>
          rw [if_neg (by omega), Nat.add_sub_cancel, ih]
          simp only [closes_close, closes_nil]
          simp
      · rw [if_neg hclose, ih]
        simp only [closes_other hopen hclose]
        simp [hclose]

/-- In front of the first opening brace, no brace may close anything. -/
theorem braceFault_prelude_eq_none_iff {head : List Char} (hhead : '{' ∉ head) (offset : Nat)
    (cs : List Char) :
    braceFault 0 offset (head ++ '{' :: cs) = none ↔
      BraceFree head ∧ ∃ body, cs = body ++ ['}'] ∧ Closes 0 body := by
  induction head generalizing offset with
  | nil =>
    rw [List.nil_append, braceFault, if_pos rfl, braceFault_inside_eq_none_iff,
      and_iff_right braceFree_nil]
  | cons c head ih =>
    obtain ⟨hc, hhead⟩ := not_or.1 (mt List.mem_cons.2 hhead)
    have hopen : c ≠ '{' := fun e => hc e.symm
    rw [List.cons_append, braceFault, if_neg hopen, braceFree_cons]
    by_cases hclose : c = '}'
    · simp [hclose]
    · rw [if_neg hclose, ih hhead, and_iff_right (⟨hopen, hclose⟩ : c ≠ '{' ∧ c ≠ '}')]

/-! ## Rules -/

/-- The braces match: none closes before it was opened, and all are closed in the end. -/
structure BracesMatch (cs : List Char) : Prop where
  prefixes : ∀ ds, ds <+: cs → ds.count '}' ≤ ds.count '{'
  whole : cs.count '{' = cs.count '}'

theorem closes_zero_iff {cs : List Char} : Closes 0 cs ↔ BracesMatch cs :=
  ⟨fun h => ⟨h.prefixes, h.whole.symm⟩, fun h => ⟨h.prefixes, h.whole.symm⟩⟩

/-- A prelude without braces that is not blank, and a block in which the braces match. -/
def IsRuleText (cs : List Char) : Prop :=
  ∃ head body, cs = head ++ '{' :: (body ++ ['}']) ∧ BraceFree head ∧ Visible head ∧ BracesMatch body

theorem takeWhile_prelude {head : List Char} (h : '{' ∉ head) (rest : List Char) :
    (head ++ '{' :: rest).takeWhile (· ≠ '{') = head := by
  have hne : ∀ c ∈ head, c ≠ '{' := by
    rintro c hc rfl
    exact h hc
  rw [List.takeWhile_append_of_pos fun c hc => decide_eq_true (hne c hc),
    List.takeWhile_cons_of_neg (by simp), List.append_nil]

/-- Where the first opening brace of a rule is known, its grammar is a matter of what stands in
front of it and behind it. -/
theorem isRuleText_iff {head rest : List Char} (h : '{' ∉ head) :
    IsRuleText (head ++ '{' :: rest) ↔
      Visible head ∧ BraceFree head ∧ ∃ body, rest = body ++ ['}'] ∧ Closes 0 body := by
  constructor
  · rintro ⟨head', body, e, hfree, hvisible, hbody⟩
    have h' : '{' ∉ head' := fun hmem => (hfree '{' hmem).1 rfl
    have hhead : head' = head := by
      rw [← takeWhile_prelude h' (body ++ ['}']), ← e, takeWhile_prelude h]
    subst hhead
    cases List.append_cancel_left e
    exact ⟨hvisible, hfree, body, rfl, closes_zero_iff.2 hbody⟩
  · rintro ⟨hvisible, hfree, body, rfl, hbody⟩
    exact ⟨head, body, rfl, hfree, hvisible, closes_zero_iff.1 hbody⟩

theorem all_isBlank_eq_false_iff {cs : List Char} : cs.all Text.isBlank = false ↔ Visible cs := by
  rw [List.all_eq_false]
  exact exists_congr fun c => and_congr_right fun _ => Bool.not_eq_true _ ▸ Iff.rfl

/-- A sheet finds no fault in a text exactly if it is a rule, surrounding blanks aside. -/
theorem ruleFault_eq_none_iff (rule : StyleRule) :
    ruleFault rule = none ↔ IsRuleText (Text.trim rule.text.toList) := by
  unfold ruleFault
  generalize Text.trim rule.text.toList = cs
  by_cases hblock : '{' ∈ cs
  · obtain ⟨head, rest, rfl, hhead⟩ := List.eq_append_cons_of_mem hblock
    simp only [takeWhile_prelude hhead]
    rw [if_neg (by simp), if_neg (not_not.2 hblock), isRuleText_iff hhead,
      ← braceFault_prelude_eq_none_iff hhead 0, ← all_isBlank_eq_false_iff]
    cases head.all Text.isBlank with
    | true => simp
    | false => simp
  · have hfault : (if cs = [] then some Refusal.empty else some Refusal.noBlock) ≠ none := by
      split <;> simp
    simp only [if_pos hblock]
    refine iff_of_false hfault ?_
    rintro ⟨head, body, rfl, -⟩
    exact hblock (List.mem_append_right _ List.mem_cons_self)

/-! ## The count -/

/-- What one character does to the reading: it ends it, whatever follows, or it changes the count as it
should. Of what follows, the reading knows at this place only whether there is anything. -/
theorem braceFault_cons (depth offset : Nat) (c : Char) (cs : List Char) :
    (∃ reason, ∀ cs', (cs' = [] ↔ cs = []) → braceFault depth offset (c :: cs') = some reason) ∨
    ∃ depth', depth + [c].count '{' = depth' + [c].count '}' ∧ ∀ cs', (cs' = [] ↔ cs = []) →
      braceFault depth offset (c :: cs') = braceFault depth' (offset + c.utf8Size) cs' := by
  by_cases hopen : c = '{'
  · subst hopen
    refine .inr ⟨depth + 1, rfl, fun cs' _ => ?_⟩
    rw [braceFault, if_pos rfl]
    rfl
  · by_cases hclose : c = '}'
    · subst hclose
      cases depth with
      | zero =>
        refine .inl ⟨.unexpectedClose offset, fun cs' _ => ?_⟩
        rw [braceFault, if_neg (by decide), if_pos rfl, if_pos rfl]
      | succ depth =>
        by_cases hlast : depth + 1 = 1 ∧ cs ≠ []
        · refine .inl ⟨.trailingText, fun cs' hcs => ?_⟩
          rw [braceFault, if_neg (by decide), if_pos rfl, if_neg (by omega),
            if_pos ⟨hlast.1, mt hcs.1 hlast.2⟩]
        · refine .inr ⟨depth, rfl, fun cs' hcs => ?_⟩
          have hlast' : ¬ (depth + 1 = 1 ∧ cs' ≠ []) := fun h => hlast ⟨h.1, mt hcs.2 h.2⟩
          rw [braceFault, if_neg (by decide), if_pos rfl, if_neg (by omega), if_neg hlast']
          rfl
    · refine .inr ⟨depth, ?_, fun cs' _ => ?_⟩
      · rw [List.count_singleton, List.count_singleton, if_neg (by simpa using hopen),
          if_neg (by simpa using hclose)]
      · rw [braceFault, if_neg hopen, if_neg hclose]

/-- At every place of a text, the reading has ended before, whatever follows, or it has come to this
place with a count that makes up for the braces in front of it. -/
theorem braceFault_append (depth offset : Nat) (cs rest : List Char) :
    (∃ reason, ∀ rest', (rest' = [] ↔ rest = []) →
      braceFault depth offset (cs ++ rest') = some reason) ∨
    ∃ depth', depth + cs.count '{' = depth' + cs.count '}' ∧
      ∀ rest', (rest' = [] ↔ rest = []) → braceFault depth offset (cs ++ rest') =
        braceFault depth' (offset + (String.ofList cs).utf8ByteSize) rest' := by
  induction cs generalizing depth offset with
  | nil => exact .inr ⟨depth, rfl, fun _ _ => rfl⟩
  | cons c cs ih =>
    have happend : ∀ rest', (rest' = [] ↔ rest = []) → (cs ++ rest' = [] ↔ cs ++ rest = []) := by
      intro rest' hrest
      rw [List.append_eq_nil_iff, List.append_eq_nil_iff, hrest]
    rcases braceFault_cons depth offset c (cs ++ rest) with ⟨reason, hfault⟩ | ⟨depth₁, hc, hstep⟩
    · exact .inl ⟨reason, fun rest' hrest => hfault _ (happend rest' hrest)⟩
    · rcases ih depth₁ (offset + c.utf8Size) with ⟨reason, hfault⟩ | ⟨depth₂, hcs, hrun⟩
      · refine .inl ⟨reason, fun rest' hrest => ?_⟩
        rw [List.cons_append, hstep _ (happend rest' hrest), hfault rest' hrest]
      · have hcount : depth + (c :: cs).count '{' = depth₂ + (c :: cs).count '}' := by
          rw [count_cons_eq_add '{', count_cons_eq_add '}']
          omega
        have hsize : (String.ofList (c :: cs)).utf8ByteSize =
            c.utf8Size + (String.ofList cs).utf8ByteSize := by
          rw [String.ofList_cons, String.utf8ByteSize_append, String.utf8ByteSize_singleton]
        refine .inr ⟨depth₂, hcount, fun rest' hrest => ?_⟩
        rw [List.cons_append, hstep _ (happend rest' hrest), hrun rest' hrest, hsize, Nat.add_assoc]

/-! ## What a sheet takes -/

namespace SheetSink

/-- A sheet takes a rule exactly if it is attached and the text of the rule, without the blanks around
it, is a prelude that has no braces and is not blank, and one block in which the braces match. However
a text is cut in two, the reading has ended in the first part, whatever follows, or it has come to its
end with a count of open blocks that is the number of braces opened in it less the number closed. -/
theorem takes_iff_isRuleText (s : SheetSink) (rule : StyleRule) :
    ((∃ h t, s.add rule = (.ok h, t)) ↔
      s.attached = true ∧ IsRuleText (Text.trim rule.text.toList)) ∧
    ∀ cs rest : List Char,
      (∃ reason, ∀ rest', (rest' = [] ↔ rest = []) → braceFault 0 0 (cs ++ rest') = some reason) ∨
      ∃ depth, cs.count '{' = depth + cs.count '}' ∧ braceFault 0 0 (cs ++ rest) =
        braceFault depth (String.ofList cs).utf8ByteSize rest := by
  constructor
  · rw [← ruleFault_eq_none_iff]
    rcases add_cases s rule with ⟨hattached, hfault, hadd⟩ | ⟨hrefused, e, hadd⟩
    · exact iff_of_true hadd ⟨hattached, hfault⟩
    · rw [hadd]
      refine iff_of_false (by simp) ?_
      rintro ⟨hattached, hfault⟩
      rcases hrefused with hdetached | hne
      · rw [hattached] at hdetached
        cases hdetached
      · exact hne hfault
  · intro cs rest
    rcases braceFault_append 0 0 cs rest with hended | ⟨depth, hcount, hrun⟩
    · exact .inl hended
    · rw [Nat.zero_add] at hcount
      have hhere := hrun rest Iff.rfl
      rw [Nat.zero_add] at hhere
      exact .inr ⟨depth, hcount, hhere⟩

/-- Blanks around a rule and characters of several octets are no obstacle; a brace that closes nothing
is, even in front of a block. -/
example : (∃ h t, empty.add ⟨"\u3000@média é\x7b.a\x7b\x7d\x7d\n"⟩ = (.ok h, t)) ∧
    ¬ ∃ h t, empty.add ⟨"é\x7d.a\x7b\x7d"⟩ = (.ok h, t) := by
  constructor
  · exact ⟨⟨0⟩, _, rfl⟩
  · rintro ⟨h, t, hadd⟩
    cases hadd

end SheetSink

end ScopedCss
