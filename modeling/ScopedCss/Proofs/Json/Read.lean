import ScopedCss.Json.Read
import ScopedCss.Proofs.OrderedMap

/-!
# What has been read

A reader that gets through is described by what it has read, part by part; how it stops is of no
interest here. An object is read member by member, and a member by the readers of its parts.

A document can be collapsed, so that no name occurs twice in an object. This changes nothing about a
document in which no name occurs twice.
-/

namespace ScopedCss.Json

/-- A chain of two steps succeeds exactly if both do, one after the other. Every reader is taken
apart with this. -/
theorem bind_eq_ok {ε α β : Type} {x : Except ε α} {f : α → Except ε β} {b : β} :
    (x >>= f) = .ok b ↔ ∃ a, x = .ok a ∧ f a = .ok b := by
  cases x with
  | error e =>
    constructor
    · intro h
      cases h
    · rintro ⟨a, h, -⟩
      cases h
  | ok a =>
    constructor
    · intro h
      exact ⟨a, rfl, h⟩
    · rintro ⟨_, h, h'⟩
      cases h
      exact h'

theorem toOption_eq_some {ε α : Type} {x : Except ε α} {a : α} :
    x.toOption = some a ↔ x = .ok a := by
  cases x with
  | error e => exact iff_of_false nofun nofun
  | ok b => simp [Except.toOption]

theorem length_skipBlanks_le (s : List Char) : (skipBlanks s).length ≤ s.length :=
  (List.dropWhile_sublist isBlank).length_le

/-! ## Members -/

section Members

variable {κ α : Type} {name : Reader κ} {value : κ → Reader α}

/-- One member is read: what stands in front of its name, the name, the colon and the value. -/
def ReadsMember (name : Reader κ) (value : κ → Reader α) (first : Bool) (s : List Char) (k : κ) (v : α)
    (r : List Char) : Prop :=
  ∃ s₁ s₂ s₃, readNameStart first (skipBlanks s) = .ok ((), s₁) ∧ name s₁ = .ok (k, s₂) ∧
    readColon s₂ = .ok ((), s₃) ∧ value k s₃ = .ok (v, r)

theorem not_readsMember_of_skipBlanks_nil {first : Bool} {s r : List Char} {k : κ} {v : α}
    (hs : skipBlanks s = []) : ¬ ReadsMember name value first s k v r := by
  rintro ⟨s₁, s₂, s₃, hstart, -⟩
  rw [hs] at hstart
  cases first <;> cases hstart

theorem not_readsMember_of_skipBlanks_close {first : Bool} {s r r' : List Char} {k : κ} {v : α}
    (hs : skipBlanks s = '}' :: r') : ¬ ReadsMember name value first s k v r := by
  rintro ⟨s₁, s₂, s₃, hstart, -⟩
  rw [hs] at hstart
  cases first <;> cases hstart

/-- An object ends, or it goes on with one more member. -/
theorem readMembers_eq_ok {n : Nat} {first : Bool} {s r : List Char} {ms : List (κ × α)} :
    readMembers name value n first s = .ok (ms, r) ↔
      (skipBlanks s = '}' :: r ∧ ms = []) ∨
      ∃ m k v t rest, n = m + 1 ∧ ReadsMember name value first s k v t ∧
        readMembers name value m false t = .ok (rest, r) ∧ ms = (k, v) :: rest := by
  rw [readMembers]
  split
  · next hs =>
    constructor
    · intro h
      cases h
    · rintro (⟨h, -⟩ | ⟨m, k, v, t, rest, -, hmember, -⟩)
      · rw [hs] at h
        cases h
      · exact absurd hmember (not_readsMember_of_skipBlanks_nil hs)
  · next r' hs =>
    constructor
    · intro h
      cases h
      exact .inl ⟨hs, rfl⟩
    · rintro (⟨h, rfl⟩ | ⟨m, k, v, t, rest, -, hmember, -⟩)
      · rw [hs] at h
        cases h
        rfl
      · exact absurd hmember (not_readsMember_of_skipBlanks_close hs)
  · next hclose =>
    cases n with
    | zero =>
      constructor
      · intro h
        cases h
      · rintro (⟨h, -⟩ | ⟨m, k, v, t, rest, hn, -⟩)
        · exact absurd h (hclose r)
        · cases hn
    | succ n =>
      constructor
      · intro h
        obtain ⟨⟨_, s₁⟩, hstart, h⟩ := bind_eq_ok.1 h
        obtain ⟨⟨k, s₂⟩, hname, h⟩ := bind_eq_ok.1 h
        obtain ⟨⟨_, s₃⟩, hcolon, h⟩ := bind_eq_ok.1 h
        obtain ⟨⟨v, t⟩, hvalue, h⟩ := bind_eq_ok.1 h
        obtain ⟨⟨rest, r'⟩, hrest, h⟩ := bind_eq_ok.1 h
        cases h
        exact .inr ⟨n, k, v, t, rest, rfl, ⟨s₁, s₂, s₃, hstart, hname, hcolon, hvalue⟩, hrest, rfl⟩
      · rintro (⟨h, -⟩ | ⟨m, k, v, t, rest, hn, ⟨s₁, s₂, s₃, hstart, hname, hcolon, hvalue⟩, hrest, rfl⟩)
        · exact absurd h (hclose r)
        · cases hn
          refine bind_eq_ok.2 ⟨_, hstart, bind_eq_ok.2 ⟨_, hname, bind_eq_ok.2 ⟨_, hcolon, ?_⟩⟩⟩
          exact bind_eq_ok.2 ⟨_, hvalue, bind_eq_ok.2 ⟨_, hrest, rfl⟩⟩

/-- Nothing can be read as an object from behind a brace that is the last character. -/
theorem readMembers_nil (n : Nat) (first : Bool) (p : List (κ × α) × List Char) :
    readMembers name value n first [] ≠ .ok p := by
  intro h
  rcases readMembers_eq_ok.1 h with ⟨h, -⟩ | ⟨m, k, v, t, rest, -, hmember, -⟩
  · cases h
  · exact not_readsMember_of_skipBlanks_nil rfl hmember

end Members

/-! ## Values -/

/-- Reading a value: what stands behind the blanks decides which reader goes on. -/
inductive ReadsValue : Nat → List Char → Json → List Char → Prop
  | null {depth : Nat} {s s' r : List Char} (hs : skipBlanks s = 'n' :: s')
      (h : readWord ['u', 'l', 'l'] s' = .ok ((), r)) : ReadsValue depth s .null r
  | yes {depth : Nat} {s s' r : List Char} (hs : skipBlanks s = 't' :: s')
      (h : readWord ['r', 'u', 'e'] s' = .ok ((), r)) : ReadsValue depth s (.bool true) r
  | no {depth : Nat} {s s' r : List Char} (hs : skipBlanks s = 'f' :: s')
      (h : readWord ['a', 'l', 's', 'e'] s' = .ok ((), r)) : ReadsValue depth s (.bool false) r
  | string {depth : Nat} {s s' r : List Char} {t : String} (hs : skipBlanks s = '"' :: s')
      (h : readString s' = .ok (t, r)) : ReadsValue depth s (.string t) r
  | array {depth : Nat} {s s' r : List Char} {items : List Json} (hs : skipBlanks s = '[' :: s')
      (h : readItems (readValue depth) s'.length true s' = .ok (items, r)) :
      ReadsValue (depth + 1) s (.array items) r
  | object {depth : Nat} {s s' r : List Char} {members : List (String × Json)}
      (hs : skipBlanks s = '{' :: s')
      (h : readMembers readString (fun _ => readValue depth) s'.length true s' = .ok (members, r)) :
      ReadsValue (depth + 1) s (.object members) r
  | number {depth : Nat} {c : Char} {s s' r : List Char} {n : Number} (hs : skipBlanks s = c :: s')
      (hc : (c = '-' || c.isDigit) = true) (h : readNumber (c :: s') = .ok (n, r)) :
      ReadsValue depth s (.number n) r

/-- What has been read as a value has been read in one of these ways. The first character decides
which, and it is looked at here once for all uses. -/
theorem readsValue_of_readValue {depth : Nat} {s r : List Char} {d : Json}
    (h : readValue depth s = .ok (d, r)) : ReadsValue depth s d r := by
  rw [readValue] at h
  split at h
  · cases h
  · next hs =>
    obtain ⟨⟨_, r'⟩, hword, h⟩ := bind_eq_ok.1 h
    cases h
    exact .null hs hword
  · next hs =>
    obtain ⟨⟨_, r'⟩, hword, h⟩ := bind_eq_ok.1 h
    cases h
    exact .yes hs hword
  · next hs =>
    obtain ⟨⟨_, r'⟩, hword, h⟩ := bind_eq_ok.1 h
    cases h
    exact .no hs hword
  · next hs =>
    obtain ⟨⟨t, r'⟩, hstring, h⟩ := bind_eq_ok.1 h
    cases h
    exact .string hs hstring
  · next hs =>
    cases depth with
    | zero => cases h
    | succ depth =>
      obtain ⟨⟨items, r'⟩, hitems, h⟩ := bind_eq_ok.1 h
      cases h
      exact .array hs hitems
  · next hs =>
    cases depth with
    | zero => cases h
    | succ depth =>
      obtain ⟨⟨members, r'⟩, hmembers, h⟩ := bind_eq_ok.1 h
      cases h
      exact .object hs hmembers
  · next hs =>
    split at h
    · next hc =>
      obtain ⟨⟨n, r'⟩, hnumber, h⟩ := bind_eq_ok.1 h
      cases h
      exact .number hs hc hnumber
    · cases h

/-- A text is read as an object if it begins with a brace, and only then. -/
theorem readValue_eq_object {depth : Nat} {s r : List Char} {members : List (String × Json)} :
    readValue depth s = .ok (.object members, r) ↔
      ∃ d s', depth = d + 1 ∧ skipBlanks s = '{' :: s' ∧
        readMembers readString (fun _ => readValue d) s'.length true s' = .ok (members, r) := by
  constructor
  · intro h
    cases readsValue_of_readValue h with
    | object hs hmembers => exact ⟨_, _, rfl, hs, hmembers⟩
  · rintro ⟨d, s', rfl, hs, hmembers⟩
    rw [readValue, hs]
    exact bind_eq_ok.2 ⟨_, hmembers, rfl⟩

/-- A text is read as a string if it begins with a quote, and only then. -/
theorem readValue_eq_string {depth : Nat} {s r : List Char} {t : String} :
    readValue depth s = .ok (.string t, r) ↔
      ∃ s', skipBlanks s = '"' :: s' ∧ readString s' = .ok (t, r) := by
  constructor
  · intro h
    cases readsValue_of_readValue h with
    | string hs hstring => exact ⟨_, hs, hstring⟩
  · rintro ⟨s', hs, hstring⟩
    rw [readValue, hs]
    exact bind_eq_ok.2 ⟨_, hstring, rfl⟩

/-- An object takes two characters at least, its braces. -/
theorem two_le_length_of_readValue_object {depth : Nat} {s r : List Char}
    {members : List (String × Json)} (h : readValue depth s = .ok (.object members, r)) :
    2 ≤ s.length := by
  obtain ⟨_, s', -, hs, hmembers⟩ := readValue_eq_object.1 h
  have hne : s' ≠ [] := by
    rintro rfl
    exact readMembers_nil _ _ _ hmembers
  have hlen := length_skipBlanks_le s
  have hpos := List.length_pos_of_ne_nil hne
  rw [hs, List.length_cons] at hlen
  omega

/-! ## Texts -/

/-- A whole text is read if the reader gets through and only blanks are left. -/
theorem readAll_eq_ok {α : Type} {reader : Reader α} {text : String} {a : α} :
    readAll reader text = .ok a ↔ ∃ r, reader text.toList = .ok (a, r) ∧ readEnd r = .ok () := by
  simp only [readAll]
  constructor
  · intro h
    split at h
    · next v hv =>
      cases h
      obtain ⟨⟨_, r⟩, hread, hv⟩ := bind_eq_ok.1 hv
      obtain ⟨_, hend, hv⟩ := bind_eq_ok.1 hv
      cases hv
      exact ⟨r, hread, hend⟩
    · cases h
  · rintro ⟨r, hread, hend⟩
    have hend : (readEnd r >>= fun _ => pure a) = .ok a := bind_eq_ok.2 ⟨(), hend, rfl⟩
    split
    · next v hv =>
      cases hv.symm.trans (bind_eq_ok.2 ⟨_, hread, hend⟩)
      rfl
    · next stop hstop => cases hstop.symm.trans (bind_eq_ok.2 ⟨_, hread, hend⟩)

/-! ## Collapsed documents -/

mutual

/-- Whether no name occurs twice in an object, at any depth. -/
def namesDistinct : Json → Bool
  | .array items => namesDistinctItems items
  | .object members => decide (Pairs.keys members).Nodup && namesDistinctMembers members
  | _ => true
termination_by structural d => d

/-- Whether no name occurs twice in an object in any of the items. -/
def namesDistinctItems : List Json → Bool
  | [] => true
  | d :: rest => namesDistinct d && namesDistinctItems rest
termination_by structural ds => ds

/-- Whether no name occurs twice in an object in the value of any member. -/
def namesDistinctMembers : List (String × Json) → Bool
  | [] => true
  | (_, d) :: rest => namesDistinct d && namesDistinctMembers rest
termination_by structural ms => ms

end

theorem collapseMembers_eq (ms : List (String × Json)) :
    collapseMembers ms = Pairs.mapValues (fun _ d => d.collapse) ms := by
  induction ms with
  | nil => rfl
  | cons m ms ih =>
    rw [collapseMembers, ih]
    rfl

mutual

/-- Nothing is cut away from a document in which no name is repeated. -/
theorem collapse_of_namesDistinct : ∀ d : Json, d.namesDistinct = true → d.collapse = d
  | .array items, h => by
    rw [namesDistinct] at h
    rw [collapse, collapseItems_of_namesDistinct items h]
  | .object members, h => by
    obtain ⟨hnodup, hmembers⟩ := Bool.and_eq_true_iff.1 h
    rw [collapse, collapseMembers_of_namesDistinct members hmembers,
      OrderedMap.toList_ofList (of_decide_eq_true hnodup)]
  | .null, _ | .bool _, _ | .number _, _ | .string _, _ => rfl
termination_by structural d => d

theorem collapseItems_of_namesDistinct :
    ∀ ds : List Json, namesDistinctItems ds = true → collapseItems ds = ds
  | [], _ => rfl
  | d :: rest, h => by
    obtain ⟨hd, hrest⟩ := Bool.and_eq_true_iff.1 h
    rw [collapseItems, collapse_of_namesDistinct d hd, collapseItems_of_namesDistinct rest hrest]
termination_by structural ds => ds

theorem collapseMembers_of_namesDistinct :
    ∀ ms : List (String × Json), namesDistinctMembers ms = true → collapseMembers ms = ms
  | [], _ => rfl
  | (name, d) :: rest, h => by
    obtain ⟨hd, hrest⟩ := Bool.and_eq_true_iff.1 h
    rw [collapseMembers, collapse_of_namesDistinct d hd,
      collapseMembers_of_namesDistinct rest hrest]
termination_by structural ms => ms

end

end ScopedCss.Json
