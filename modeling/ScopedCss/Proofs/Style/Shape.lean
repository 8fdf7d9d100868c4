import ScopedCss.Proofs.Style.Decode
import ScopedCss.Proofs.Style.Mentions

/-!
# The shape of a style object

Which documents are style objects can be said without decoding them: an object whose members are
scalars or blocks, where a block is an object whose members are scalars (`IsStyleObject`). Every member
counts, also one whose name is repeated. What such a document denotes is said at both levels in the
same way: there is one entry for each name, where the name stands first, and it has what the last
member with this name denotes (`Collects`).
-/

namespace ScopedCss

open Json

/-! ## Shapes -/

/-- A string, a number or null. -/
inductive IsScalar : Json → Prop where
  | null : IsScalar .null
  | number (n : Json.Number) : IsScalar (.number n)
  | string (t : String) : IsScalar (.string t)

/-- An object of scalars. -/
inductive IsBlock : Json → Prop where
  | object {members : List (String × Json)} (h : ∀ m ∈ members, IsScalar m.2) :
    IsBlock (.object members)

/-- A scalar or a block. -/
inductive IsEntry : Json → Prop where
  | scalar {d : Json} (h : IsScalar d) : IsEntry d
  | block {d : Json} (h : IsBlock d) : IsEntry d

/-- An object of entries. -/
inductive IsStyleObject : Json → Prop where
  | object {members : List (String × Json)} (h : ∀ m ∈ members, IsEntry m.2) :
    IsStyleObject (.object members)

/-! ## Meanings -/

/-- What a scalar denotes. -/
inductive DenotesValue : Json → StyleValue → Prop where
  | null : DenotesValue .null .null
  | number (n : Json.Number) : DenotesValue (.number n) (.number n.toBinary64)
  | string (t : String) : DenotesValue (.string t) (.text t)

/-- The map has one entry for each name of the members, in the order in which the names first occur, and
under each name what the last member with this name denotes. -/
structure Collects {α : Type} (denotes : Json → α → Prop) (members : List (String × Json))
    (m : OrderedMap String α) : Prop where
  keys : m.keys = Pairs.firstMentions members
  last : ∀ name, Option.Rel denotes (Pairs.saidOf name members).getLast? (m.get? name)

/-- What stands under a key denotes: a value, or a block that collects values. -/
inductive DenotesEntry : Json → StyleEntry → Prop where
  | value {d : Json} {v : StyleValue} (h : DenotesValue d v) : DenotesEntry d (.value v)
  | nested {members : List (String × Json)} {block : Declarations}
    (h : Collects DenotesValue members block) : DenotesEntry (.object members) (.nested block)

/-- What is collected stays so if the values denote more loosely. -/
theorem Collects.imp {α : Type} {denotes denotes' : Json → α → Prop} {members : List (String × Json)}
    {m : OrderedMap String α} (h : Collects denotes members m)
    (himp : ∀ d a, denotes d a → denotes' d a) : Collects denotes' members m := by
  refine ⟨h.keys, fun name => ?_⟩
  have hlast := h.last name
  revert hlast
  generalize (Pairs.saidOf name members).getLast? = x
  generalize m.get? name = y
  intro hlast
  cases hlast with
  | some hxy => exact .some (himp _ _ hxy)
  | none => exact .none

/-! ## Members that are decoded one by one -/

/-- Matched lists have matched last members, or are both empty. -/
theorem rel_getLast?_of_forall₂ {α β : Type} {R : α → β → Prop} {as : List α} {bs : List β}
    (h : List.Forall₂ R as bs) : Option.Rel R as.getLast? bs.getLast? := by
  induction h with
  | nil => exact .none
  | @cons a b as bs hab hrest ih =>
    cases hrest with
    | nil => exact .some hab
    | cons _ _ => exact ih

/-- Members that are matched one by one, and then written one after the other. -/
theorem collects_ofList {α : Type} {denotes : Json → α → Prop} {members : List (String × Json)}
    {ms : List (String × α)} (h : Pairs.Matched denotes members ms) :
    Collects denotes members (.ofList ms) := by
  constructor
  · rw [OrderedMap.keys_ofList, Pairs.firstMentions, Pairs.firstMentions, h.keys_eq]
  · intro name
    rw [OrderedMap.get?_ofList]
    exact rel_getLast?_of_forall₂ (h.saidOf name)

/-- Members can be matched all at once if each of them can be by itself. -/
theorem exists_matched_iff {α : Type} {R : Json → α → Prop} {members : List (String × Json)} :
    (∃ ms, Pairs.Matched R members ms) ↔ ∀ m ∈ members, ∃ a, R m.2 a := by
  induction members with
  | nil => simp
  | cons m members ih =>
    rw [List.forall_mem_cons, ← ih]
    constructor
    · rintro ⟨_, hms⟩
      cases hms with
      | cons hm hrest => exact ⟨⟨_, hm.2⟩, _, hrest⟩
    · rintro ⟨⟨a, ha⟩, ms, hms⟩
      exact ⟨(m.1, a) :: ms, .cons ⟨rfl, ha⟩ hms⟩

/-- A document decodes to a block exactly if it is an object and each member can be decoded. -/
theorem exists_decodedBlock_iff {α : Type} {decode : Json → Except Fault α} {d : Json} :
    (∃ m, DecodedBlock decode d m) ↔
      ∃ members, d = .object members ∧ ∀ m ∈ members, ∃ a, decode m.2 = .ok a := by
  constructor
  · rintro ⟨_, members, ms, rfl, hms, rfl⟩
    exact ⟨members, rfl, exists_matched_iff.1 ⟨ms, hms⟩⟩
  · rintro ⟨members, rfl, hmembers⟩
    obtain ⟨ms, hms⟩ := exists_matched_iff (R := fun d a => decode d = .ok a).2 hmembers
    exact ⟨_, members, ms, rfl, hms, rfl⟩

theorem DecodedBlock.collects {α : Type} {decode : Json → Except Fault α} {d : Json}
    {m : OrderedMap String α} (h : DecodedBlock decode d m) :
    ∃ members, d = .object members ∧ Collects (fun d a => decode d = .ok a) members m := by
  obtain ⟨members, ms, rfl, hms, rfl⟩ := h
  exact ⟨members, rfl, collects_ofList hms⟩

/-! ## What the decoders accept -/

/-- Decoding to a value is the relation between scalars and the values they denote. -/
theorem StyleValue.ofJson_eq_ok {expected : Expectation} {d : Json} {v : StyleValue} :
    StyleValue.ofJson expected d = .ok v ↔ DenotesValue d v := by
  constructor
  · intro h
    cases d with
    | null =>
      cases h
      exact .null
    | number n =>
      cases h
      exact .number n
    | string t =>
      cases h
      exact .string t
    | bool b => cases h
    | array items => cases h
    | object members => cases h
  · rintro (_ | n | t)
    · rfl
    · rfl
    · rfl

/-- Of a document without members, only scalars denote a value. -/
theorem exists_denotesValue_iff {d : Json} : (∃ v, DenotesValue d v) ↔ IsScalar d := by
  constructor
  · rintro ⟨_, _ | n | t⟩
    · exact .null
    · exact .number n
    · exact .string t
  · rintro (_ | n | t)
    · exact ⟨_, .null⟩
    · exact ⟨_, .number n⟩
    · exact ⟨_, .string t⟩

/-- The documents that decode to a block of values are the blocks. -/
theorem exists_decodedBlock_value_iff {d : Json} :
    (∃ m, DecodedBlock (StyleValue.ofJson .value) d m) ↔ IsBlock d := by
  simp only [exists_decodedBlock_iff, StyleValue.ofJson_eq_ok, exists_denotesValue_iff]
  constructor
  · rintro ⟨members, rfl, hmembers⟩
    exact .object hmembers
  · rintro ⟨hmembers⟩
    exact ⟨_, rfl, hmembers⟩

/-- The documents that decode to an entry are the entries: scalars and blocks. -/
theorem exists_ofJson_entry_iff {d : Json} : (∃ e, StyleEntry.ofJson d = .ok e) ↔ IsEntry d := by
  simp only [StyleEntry.ofJson_eq_ok, StyleValue.ofJson_eq_ok]
  constructor
  · rintro ⟨_, ⟨m, hm, rfl⟩ | ⟨v, hv, rfl⟩⟩
    · exact .block (exists_decodedBlock_value_iff.1 ⟨m, hm⟩)
    · exact .scalar (exists_denotesValue_iff.1 ⟨v, hv⟩)
  · rintro (hscalar | hblock)
    · obtain ⟨v, hv⟩ := exists_denotesValue_iff.2 hscalar
      exact ⟨_, .inr ⟨v, hv, rfl⟩⟩
    · obtain ⟨m, hm⟩ := exists_decodedBlock_value_iff.2 hblock
      exact ⟨_, .inl ⟨m, hm, rfl⟩⟩

theorem denotesEntry_of_ofJson {d : Json} {e : StyleEntry} (h : StyleEntry.ofJson d = .ok e) :
    DenotesEntry d e := by
  rcases StyleEntry.ofJson_eq_ok.1 h with ⟨m, hm, rfl⟩ | ⟨v, hv, rfl⟩
  · obtain ⟨members, rfl, hcollects⟩ := hm.collects
    exact .nested (hcollects.imp fun _ _ => StyleValue.ofJson_eq_ok.1)
  · exact .value (StyleValue.ofJson_eq_ok.1 hv)

namespace StyleObject

theorem exists_ofJson_iff {d : Json} : (∃ o, StyleObject.ofJson d = .ok o) ↔ IsStyleObject d := by
  simp only [StyleObject.ofJson_eq_ok, exists_decodedBlock_iff, exists_ofJson_entry_iff]
  constructor
  · rintro ⟨members, rfl, hmembers⟩
    exact .object hmembers
  · rintro ⟨hmembers⟩
    exact ⟨_, rfl, hmembers⟩

end StyleObject

/-! ## What stands where -/

/-- The document `x` stands in `d`, so many levels below it. -/
inductive StandsIn (x : Json) : Nat → Json → Prop where
  | self : StandsIn x 0 x
  | item {level : Nat} {items : List Json} {d : Json} (hd : d ∈ items) (h : StandsIn x level d) :
    StandsIn x (level + 1) (.array items)
  | member {level : Nat} {members : List (String × Json)} {m : String × Json} (hm : m ∈ members)
    (h : StandsIn x level m.2) : StandsIn x (level + 1) (.object members)

theorem IsScalar.standsIn {d x : Json} {level : Nat} (hd : IsScalar d) (hx : StandsIn x level d) :
    level = 0 ∧ IsScalar x := by
  cases hx with
  | self => exact ⟨rfl, hd⟩
  | item => cases hd
  | member => cases hd

/-- In a block there are scalars only, one level down. -/
theorem IsBlock.standsIn {d x : Json} {level : Nat} (hd : IsBlock d) (hx : StandsIn x level d) :
    level = 0 ∧ IsBlock x ∨ level = 1 ∧ IsScalar x := by
  obtain ⟨hmembers⟩ := hd
  cases hx with
  | self => exact .inl ⟨rfl, .object hmembers⟩
  | member hm hx =>
    obtain ⟨rfl, hscalar⟩ := (hmembers _ hm).standsIn hx
    exact .inr ⟨rfl, hscalar⟩

/-- In a style object stand entries at the first level below it, scalars at the second, and nothing
further below. -/
theorem IsStyleObject.standsIn {d x : Json} {level : Nat} (hd : IsStyleObject d)
    (hx : StandsIn x level d) :
    level = 0 ∧ x = d ∨ level = 1 ∧ IsEntry x ∨ level = 2 ∧ IsScalar x := by
  obtain ⟨hmembers⟩ := hd
  cases hx with
  | self => exact .inl ⟨rfl, rfl⟩
  | member hm hx =>
    rcases hmembers _ hm with hscalar | hblock
    · obtain ⟨rfl, hshape⟩ := hscalar.standsIn hx
      exact .inr (.inl ⟨rfl, .scalar hshape⟩)
    · rcases hblock.standsIn hx with ⟨rfl, hshape⟩ | ⟨rfl, hshape⟩
      · exact .inr (.inl ⟨rfl, .block hshape⟩)
      · exact .inr (.inr ⟨rfl, hshape⟩)

/-- What has no place in a style object: truth values and arrays anywhere, and objects on a third level. -/
inductive Misplaced : Nat → Json → Prop where
  | bool (level : Nat) (b : Bool) : Misplaced level (.bool b)
  | array (level : Nat) (items : List Json) : Misplaced level (.array items)
  | object {level : Nat} (h : 2 ≤ level) (members : List (String × Json)) :
    Misplaced level (.object members)

/-- Nothing that stands in a style object is out of place. The levels are the ones at which scalars
and blocks may stand. -/
theorem IsStyleObject.not_misplaced {d x : Json} {level : Nat} (hd : IsStyleObject d)
    (hx : StandsIn x level d) : ¬ Misplaced level x := by
  intro hmisplaced
  rcases hd.standsIn hx with ⟨rfl, rfl⟩ | ⟨rfl, hentry⟩ | ⟨rfl, hscalar⟩
  · cases hd
    cases hmisplaced with
    | object h => omega
  · rcases hentry with hscalar | hblock
    · cases hmisplaced with
      | bool => cases hscalar
      | array => cases hscalar
      | object => cases hscalar
    · cases hmisplaced with
      | bool => cases hblock
      | array => cases hblock
      | object h => omega
  · cases hmisplaced with
    | bool => cases hscalar
    | array => cases hscalar
    | object => cases hscalar

namespace StyleObject

/-- A text that is read as a document is a style object exactly if the document has the shape of one, in
all of its members. Then the style object has one entry for each name, where the name stands first, and
with what the last member of this name denotes, and blocks are made from their members in the same way.
With a truth value or an array anywhere in the document, or an object on a third level, the text is
refused. -/
theorem parse_accepts_shape {text : String} {d : Json} (hread : Json.read text = .ok d) :
    ((∃ o, StyleObject.parse text = .ok o) ↔ IsStyleObject d) ∧
      (∀ o, StyleObject.parse text = .ok o →
        ∃ members, d = .object members ∧ Collects DenotesEntry members o) ∧
      ∀ level x, StandsIn x level d → Misplaced level x →
        ∃ e, StyleObject.parse text = .error e := by
  have hparse : ∀ o, StyleObject.parse text = .ok o ↔ StyleObject.ofJson d = .ok o := by
    intro o
    rw [StyleObject.parse_eq_ok, hread]
    constructor
    · rintro ⟨_, e, ho⟩
      cases e
      exact ho
    · intro ho
      exact ⟨d, rfl, ho⟩
  have haccepts : (∃ o, StyleObject.parse text = .ok o) ↔ IsStyleObject d := by
    simp only [hparse, exists_ofJson_iff]
  refine ⟨haccepts, ?_, ?_⟩
  · intro o ho
    obtain ⟨members, rfl, hcollects⟩ := (StyleObject.ofJson_eq_ok.1 ((hparse o).1 ho)).collects
    exact ⟨members, rfl, hcollects.imp fun _ _ => denotesEntry_of_ofJson⟩
  · intro level x hx hmisplaced
    cases hresult : StyleObject.parse text with
    | error e => exact ⟨e, rfl⟩
    | ok o => exact absurd hmisplaced ((haccepts.1 ⟨o, hresult⟩).not_misplaced hx)

/-- Repeated names on both levels, and an array in a block that is replaced later. -/
theorem parse_accepts_shape_repeated :
    let text := "\x7b\"a\":1,\"&:hover\":\x7b\"x\":2,\"x\":null\x7d,\"a\":\"s\"\x7d"
    let refused := "\x7b\"a\":\x7b\"x\":[1]\x7d,\"a\":1\x7d"
    let members : List (String × Json) := [("a", .number (.integer 1)),
      ("&:hover", .object [("x", .number (.integer 2)), ("x", .null)]), ("a", .string "s")]
    let o : StyleObject := .ofList [("a", .value (.text "s")),
      ("&:hover", .nested (.ofList [("x", .null)]))]
    Json.read text = .ok (.object members) ∧ IsStyleObject (.object members) ∧
      StyleObject.parse text = .ok o ∧ Collects DenotesEntry members o ∧
      (∃ d, Json.read refused = .ok d ∧ StandsIn (.array [.number (.integer 1)]) 2 d) ∧
      ∃ e, StyleObject.parse refused = .error e := by
  intro text refused members o
  have hread : Json.read text = .ok (.object members) := by
    rw [Json.read, readAll]
    simp only [text, ← String.length_toList, String.reduceToList]
    rfl
  have hparse : StyleObject.parse text = .ok o :=
    toOption_eq_some.1 (by decide +kernel : (StyleObject.parse text).toOption = some o)
  obtain ⟨haccepts, hdenotes, -⟩ := parse_accepts_shape hread
  obtain ⟨_, e, hcollects⟩ := hdenotes o hparse
  cases e
  let block : Json := .object [("x", .array [.number (.integer 1)])]
  have hrefused : Json.read refused = .ok (.object [("a", block), ("a", .number (.integer 1))]) := by
    rw [Json.read, readAll]
    simp only [refused, ← String.length_toList, String.reduceToList]
    rfl
  have hstands : StandsIn (.array [.number (.integer 1)]) 2
      (.object [("a", block), ("a", .number (.integer 1))]) :=
    .member List.mem_cons_self (.member List.mem_cons_self .self)
  exact ⟨hread, haccepts.1 ⟨o, hparse⟩, hparse, hcollects, ⟨_, hrefused, hstands⟩,
    (parse_accepts_shape hrefused).2.2 2 _ hstands (.array 2 _)⟩

end StyleObject

end ScopedCss
