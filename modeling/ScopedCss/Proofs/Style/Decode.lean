import ScopedCss.Proofs.Json.Read
import ScopedCss.Style.Decode

/-!
# Two ways to decode a style

The readers of styles never build a document, and look at every member of an object; the decoders are
given a document, of which repeated names may have been cut away before. Reading directly is reading a
document as it is written and then decoding it (`Decodes`), and this is shown reader by reader, from
scalars to whole texts. What is then cut away when the document is collapsed has been decoded with the
rest, and it is overwritten in the style as well as in the document.
-/

namespace ScopedCss

open Json

/-! ## Reading is decoding what was read -/

/-- To read directly is to read a document and to decode it, with the same characters left. -/
def Decodes {α : Type} (direct : Reader α) (document : Reader Json)
    (decode : Json → Except Fault α) : Prop :=
  ∀ s a r, direct s = .ok (a, r) ↔ ∃ d, document s = .ok (d, r) ∧ decode d = .ok a

/-- The same was read on either way, and made into a value on one and into a document on the other. -/
theorem taken_iff {α β : Type} {x : Except Stop (β × List Char)} {f : β → α} {g : β → Json}
    {decode : Json → Except Fault α} (h : ∀ b, decode (g b) = .ok (f b)) {a : α} {r : List Char} :
    (x >>= fun p => pure (f p.1, p.2)) = .ok (a, r) ↔
      ∃ d, (x >>= fun p => pure (g p.1, p.2)) = .ok (d, r) ∧ decode d = .ok a := by
  constructor
  · intro hx
    obtain ⟨p, hp, e⟩ := bind_eq_ok.1 hx
    cases e
    exact ⟨g p.1, bind_eq_ok.2 ⟨p, hp, rfl⟩, h p.1⟩
  · rintro ⟨d, hx, hd⟩
    obtain ⟨p, hp, e⟩ := bind_eq_ok.1 hx
    cases e
    rw [h p.1] at hd
    cases hd
    exact bind_eq_ok.2 ⟨p, hp, rfl⟩

/-- Nothing is read on the direct way, and what is made of the document on the other one is refused. -/
theorem refused_iff {α β : Type} {x : Except Stop (α × List Char)}
    {y : Except Stop (β × List Char)} {g : β → Json} {decode : Json → Except Fault α}
    (hx : ∀ p, x ≠ .ok p) (h : ∀ b a, decode (g b) ≠ .ok a) {a : α} {r : List Char} :
    x = .ok (a, r) ↔ ∃ d, (y >>= fun p => pure (g p.1, p.2)) = .ok (d, r) ∧ decode d = .ok a := by
  refine iff_of_false (hx _) ?_
  rintro ⟨d, hy, hd⟩
  obtain ⟨p, -, e⟩ := bind_eq_ok.1 hy
  cases e
  exact h _ _ hd

theorem bind_stop_ne {α β : Type} (x : Except Stop β) (f : β → Stop) (p : α) :
    (x >>= fun b => .error (f b)) ≠ .ok p := by
  intro h
  obtain ⟨b, -, h⟩ := bind_eq_ok.1 h
  cases h

theorem stopBefore_ne {α : Type} (reason : Fault) (s : List Char) (p : α × List Char) :
    stopBefore reason s ≠ .ok p := nofun

/-! ## Values -/

/-- Where a scalar may stand, reading it directly and decoding the document read come to the same,
with the same characters left. The cases are those of the first character. -/
theorem readScalar_iff (expected : Expectation) (depth : Nat) (s : List Char) (v : StyleValue)
    (r : List Char) : readScalar expected (skipBlanks s) = .ok (v, r) ↔
      ∃ d, readValue depth s = .ok (d, r) ∧ StyleValue.ofJson expected d = .ok v := by
  rw [readValue]
  generalize skipBlanks s = cs
  unfold readScalar
  split
  · simp [stopOn]
  · have hnull : ∀ _ : Unit, StyleValue.ofJson expected .null = .ok .null := fun _ => rfl
    exact taken_iff hnull
  · have hbool : ∀ (_ : Unit) v, StyleValue.ofJson expected (.bool true) ≠ .ok v := by
      intro _ v h
      cases h
    exact refused_iff (bind_stop_ne _ _) hbool
  · have hbool : ∀ (_ : Unit) v, StyleValue.ofJson expected (.bool false) ≠ .ok v := by
      intro _ v h
      cases h
    exact refused_iff (bind_stop_ne _ _) hbool
  · have htext : ∀ t, StyleValue.ofJson expected (.string t) = .ok (.text t) := fun _ => rfl
    exact taken_iff htext
  · have harray : ∀ items v, StyleValue.ofJson expected (.array items) ≠ .ok v := by
      intro items v h
      cases h
    cases depth with
    | zero => simp [stopBefore]
    | succ depth => exact refused_iff (stopBefore_ne _ _) harray
  · have hobject : ∀ members v, StyleValue.ofJson expected (.object members) ≠ .ok v := by
      intro members v h
      cases h
    cases depth with
    | zero => simp [stopBefore]
    | succ depth => exact refused_iff (stopBefore_ne _ _) hobject
  · have hnumber : ∀ n : Json.Number,
        StyleValue.ofJson expected (.number n) = .ok (.number n.toBinary64) := fun _ => rfl
    simp only
    split
    · exact taken_iff hnumber
    · simp [stopOn]

theorem decodes_value (depth : Nat) :
    Decodes StyleValue.reader (readValue depth) (StyleValue.ofJson .value) :=
  readScalar_iff .value depth

/-! ## Members -/

/-- Members are decoded one by one, each by itself, and their names are kept. -/
theorem decodeMembers_eq_ok {α : Type} {decode : Json → Except Fault α}
    {members : List (String × Json)} {ms : List (String × α)} :
    decodeMembers decode members = .ok ms ↔
      Pairs.Matched (fun d v => decode d = .ok v) members ms := by
  induction members generalizing ms with
  | nil =>
    constructor
    · intro h
      cases h
      exact .nil
    · intro h
      cases h
      rfl
  | cons m members ih =>
    rw [decodeMembers, bind_eq_ok]
    constructor
    · rintro ⟨v, hv, h⟩
      obtain ⟨vs, hvs, h⟩ := bind_eq_ok.1 h
      cases h
      exact .cons ⟨rfl, hv⟩ (ih.1 hvs)
    · intro h
      cases h with
      | cons hm hrest =>
        obtain ⟨hname, hv⟩ := hm
        refine ⟨_, hv, bind_eq_ok.2 ⟨_, ih.2 hrest, ?_⟩⟩
        rw [hname]
        rfl

section Members

variable {α : Type} {direct : Reader α} {document : Reader Json} {decode : Json → Except Fault α}

/-- One member is read directly exactly if it is read as a document and then decoded. -/
theorem Decodes.readsMember (h : Decodes direct document decode) {first : Bool} {s r : List Char}
    {k : String} {v : α} : ReadsMember readString (fun _ => direct) first s k v r ↔
      ∃ d, ReadsMember readString (fun _ => document) first s k d r ∧ decode d = .ok v := by
  constructor
  · rintro ⟨s₁, s₂, s₃, hstart, hname, hcolon, hvalue⟩
    obtain ⟨d, hd, hv⟩ := (h s₃ v r).1 hvalue
    exact ⟨d, ⟨s₁, s₂, s₃, hstart, hname, hcolon, hd⟩, hv⟩
  · rintro ⟨d, ⟨s₁, s₂, s₃, hstart, hname, hcolon, hd⟩, hv⟩
    exact ⟨s₁, s₂, s₃, hstart, hname, hcolon, (h s₃ v r).2 ⟨d, hd, hv⟩⟩

/-- So are all members up to the end of the object. The induction is on the number of steps of the
reader. -/
theorem Decodes.readMembers (h : Decodes direct document decode) {n : Nat} {first : Bool}
    {s r : List Char} {ms : List (String × α)} :
    readMembers readString (fun _ => direct) n first s = .ok (ms, r) ↔
      ∃ members, Json.readMembers readString (fun _ => document) n first s = .ok (members, r) ∧
        Pairs.Matched (fun d v => decode d = .ok v) members ms := by
  induction n using Nat.strongRecOn generalizing first s ms with
  | _ n ih =>
    constructor
    · intro hread
      rcases readMembers_eq_ok.1 hread with ⟨hs, rfl⟩ | ⟨m, k, v, t, rest, hn, hmember, hrest, rfl⟩
      · exact ⟨[], readMembers_eq_ok.2 (.inl ⟨hs, rfl⟩), .nil⟩
      · obtain ⟨d, hd, hv⟩ := h.readsMember.1 hmember
        obtain ⟨ds, hds, hvs⟩ := (ih m (by omega)).1 hrest
        exact ⟨(k, d) :: ds, readMembers_eq_ok.2 (.inr ⟨m, k, d, t, ds, hn, hd, hds, rfl⟩),
          .cons ⟨rfl, hv⟩ hvs⟩
    · rintro ⟨members, hread, hdecoded⟩
      rcases readMembers_eq_ok.1 hread with ⟨hs, rfl⟩ | ⟨m, k, d, t, ds, hn, hd, hds, rfl⟩
      · cases hdecoded
        exact readMembers_eq_ok.2 (.inl ⟨hs, rfl⟩)
      · cases hdecoded with
        | @cons _ q _ vs hm hvs =>
          obtain ⟨rfl, hv⟩ := hm
          have hmember := h.readsMember.2 ⟨d, hd, hv⟩
          have hrest := (ih m (by omega)).2 ⟨ds, hds, hvs⟩
          exact readMembers_eq_ok.2 (.inr ⟨m, _, _, t, vs, hn, hmember, hrest, rfl⟩)

end Members

/-! ## Blocks -/

/-- The document is an object, and the block has what its members decode to. -/
def DecodedBlock {α : Type} (decode : Json → Except Fault α) (d : Json) (m : OrderedMap String α) :
    Prop :=
  ∃ members ms, d = .object members ∧ Pairs.Matched (fun d v => decode d = .ok v) members ms ∧
    m = .ofList ms

/-- A document is decoded to a block exactly if its members are decoded and collected. -/
theorem decodedBlock_object {α : Type} {decode : Json → Except Fault α}
    {members : List (String × Json)} {m : OrderedMap String α} :
    (decodeMembers decode members >>= fun ms => pure (OrderedMap.ofList ms)) = .ok m ↔
      DecodedBlock decode (.object members) m := by
  rw [bind_eq_ok]
  constructor
  · rintro ⟨ms, hms, e⟩
    cases e
    exact ⟨members, ms, rfl, decodeMembers_eq_ok.1 hms, rfl⟩
  · rintro ⟨_, ms, e, hms, rfl⟩
    cases e
    exact ⟨ms, decodeMembers_eq_ok.2 hms, rfl⟩

theorem not_decodedBlock_of_ne_object {α : Type} {decode : Json → Except Fault α} {d : Json}
    (hd : ∀ members, d ≠ .object members) (m : OrderedMap String α) : ¬ DecodedBlock decode d m := by
  rintro ⟨members, ms, e, -⟩
  exact hd members e

theorem Declarations.ofJson_eq_ok {d : Json} {m : Declarations} :
    Declarations.ofJson d = .ok m ↔ DecodedBlock (StyleValue.ofJson .value) d m := by
  unfold Declarations.ofJson
  split
  · exact decodedBlock_object
  · next hd => exact iff_of_false (by simp) (not_decodedBlock_of_ne_object hd m)

theorem StyleObject.ofJson_eq_ok {d : Json} {o : StyleObject} :
    StyleObject.ofJson d = .ok o ↔ DecodedBlock StyleEntry.ofJson d o := by
  unfold StyleObject.ofJson
  split
  · exact decodedBlock_object
  · next hd => exact iff_of_false (by simp) (not_decodedBlock_of_ne_object hd o)

/-- What stands under a key is a nested block if it is an object and a value if not. -/
theorem StyleEntry.ofJson_eq_ok {d : Json} {e : StyleEntry} :
    StyleEntry.ofJson d = .ok e ↔
      (∃ m, DecodedBlock (StyleValue.ofJson .value) d m ∧ e = .nested m) ∨
      ∃ v, StyleValue.ofJson .entry d = .ok v ∧ e = .value v := by
  unfold StyleEntry.ofJson
  split
  · next members =>
    rw [bind_eq_ok]
    constructor
    · rintro ⟨ms, hms, e'⟩
      cases e'
      exact .inl ⟨_, decodedBlock_object.1 (bind_eq_ok.2 ⟨ms, hms, rfl⟩), rfl⟩
    · rintro (⟨m, hm, rfl⟩ | ⟨v, hv, -⟩)
      · obtain ⟨ms, hms, e'⟩ := bind_eq_ok.1 (decodedBlock_object.2 hm)
        cases e'
        exact ⟨ms, hms, rfl⟩
      · cases hv
  · next hd =>
    rw [bind_eq_ok]
    constructor
    · rintro ⟨v, hv, e'⟩
      cases e'
      exact .inr ⟨v, hv, rfl⟩
    · rintro (⟨m, hm, -⟩ | ⟨v, hv, rfl⟩)
      · exact absurd hm (not_decodedBlock_of_ne_object hd m)
      · exact ⟨v, hv, rfl⟩

/-! ## Objects -/

section Objects

variable {α : Type} {direct : Reader α} {decode : Json → Except Fault α} {depth : Nat}

/-- An object that is read as a block directly has been read member by member, and its members are
those of the document. -/
theorem Decodes.readBlock (h : Decodes direct (readValue depth) decode) {s s' r : List Char}
    {m : OrderedMap String α} (hs : skipBlanks s = '{' :: s') :
    readBlock direct s' = .ok (m, r) ↔
      ∃ d, readValue (depth + 1) s = .ok (d, r) ∧ DecodedBlock decode d m := by
  rw [ScopedCss.readBlock, bind_eq_ok]
  constructor
  · rintro ⟨⟨ms, r'⟩, hread, e⟩
    cases e
    obtain ⟨members, hmembers, hms⟩ := h.readMembers.1 hread
    exact ⟨.object members, readValue_eq_object.2 ⟨depth, s', rfl, hs, hmembers⟩, members, ms, rfl,
      hms, rfl⟩
  · rintro ⟨_, hd, members, ms, rfl, hms, rfl⟩
    obtain ⟨_, s'', e, hs', hmembers⟩ := readValue_eq_object.1 hd
    cases e
    rw [hs] at hs'
    cases hs'
    exact ⟨(ms, r), h.readMembers.2 ⟨members, hmembers, hms⟩, rfl⟩

/-- What does not begin with a brace is no block. -/
theorem not_decodedBlock {s r : List Char} (hs : ∀ s', skipBlanks s ≠ '{' :: s')
    (m : OrderedMap String α) : ¬ ∃ d, readValue depth s = .ok (d, r) ∧ DecodedBlock decode d m := by
  rintro ⟨_, hd, members, ms, rfl, -⟩
  obtain ⟨_, s', -, hs', -⟩ := readValue_eq_object.1 hd
  exact hs s' hs'

/-- A refusal never comes with a result. -/
theorem refuse_ne_ok (expected : Expectation) (s : List Char) (p : α × List Char) :
    refuse expected s ≠ .ok p := by
  unfold refuse
  split
  · nofun
  · nofun
  · nofun
  · exact bind_stop_ne _ _ p
  · exact bind_stop_ne _ _ p
  · exact bind_stop_ne _ _ p
  · exact bind_stop_ne _ _ p
  · split
    · exact bind_stop_ne _ _ p
    · nofun

end Objects

theorem decodes_declarations (depth : Nat) :
    Decodes Declarations.reader (readValue (depth + 1)) Declarations.ofJson := by
  intro s m r
  simp only [Declarations.ofJson_eq_ok]
  unfold Declarations.reader
  split
  · next s' hs => exact (decodes_value depth).readBlock hs
  · next hs => exact iff_of_false (refuse_ne_ok _ _ _) (not_decodedBlock hs m)

/-- An entry is decided by one character: behind a brace it is read as a block, otherwise as a
scalar. -/
theorem decodes_entry (depth : Nat) :
    Decodes StyleEntry.reader (readValue (depth + 1)) StyleEntry.ofJson := by
  intro s e r
  simp only [StyleEntry.ofJson_eq_ok]
  unfold StyleEntry.reader
  split
  · next s' hs =>
    rw [bind_eq_ok]
    constructor
    · rintro ⟨⟨m, r'⟩, hm, e'⟩
      cases e'
      obtain ⟨d, hd, hm⟩ := ((decodes_value depth).readBlock hs).1 hm
      exact ⟨d, hd, .inl ⟨m, hm, rfl⟩⟩
    · rintro ⟨d, hd, ⟨m, hm, rfl⟩ | ⟨v, hv, rfl⟩⟩
      · exact ⟨(m, r), ((decodes_value depth).readBlock hs).2 ⟨d, hd, hm⟩, rfl⟩
      · have hscalar := (readScalar_iff .entry (depth + 1) s v r).2 ⟨d, hd, hv⟩
        rw [hs] at hscalar
        cases hscalar
  · next hs =>
    rw [bind_eq_ok]
    constructor
    · rintro ⟨⟨v, r'⟩, hv, e'⟩
      cases e'
      obtain ⟨d, hd, hv⟩ := (readScalar_iff .entry (depth + 1) s v r).1 hv
      exact ⟨d, hd, .inr ⟨v, hv, rfl⟩⟩
    · rintro ⟨d, hd, ⟨m, hm, rfl⟩ | ⟨v, hv, rfl⟩⟩
      · exact absurd ⟨d, hd, hm⟩ (not_decodedBlock hs m)
      · exact ⟨(v, r), (readScalar_iff .entry (depth + 1) s v r).2 ⟨d, hd, hv⟩, rfl⟩

theorem decodes_styleObject (depth : Nat) :
    Decodes StyleObject.reader (readValue (depth + 2)) StyleObject.ofJson := by
  intro s m r
  simp only [StyleObject.ofJson_eq_ok]
  unfold StyleObject.reader
  split
  · next s' hs => exact (decodes_entry depth).readBlock hs
  · next hs => exact iff_of_false (refuse_ne_ok _ _ _) (not_decodedBlock hs m)

/-! ## Texts -/

/-- A text that is read as an object is long enough for two levels of objects. -/
theorem readAll_iff_read {α : Type} {direct : Reader (OrderedMap String α)}
    {entry : Json → Except Fault α} {decode : Json → Except Fault (OrderedMap String α)}
    (hdirect : ∀ depth, Decodes direct (readValue (depth + 2)) decode)
    (hdecode : ∀ d m, decode d = .ok m ↔ DecodedBlock entry d m) (text : String)
    (m : OrderedMap String α) :
    readAll direct text = .ok m ↔ ∃ d, Json.read text = .ok d ∧ decode d = .ok m := by
  have hlong : ∀ {depth d r}, readValue depth text.toList = .ok (d, r) → decode d = .ok m →
      ∃ n, text.length = n + 2 := by
    intro depth d r hd hm
    obtain ⟨members, ms, rfl, -⟩ := (hdecode d m).1 hm
    have := two_le_length_of_readValue_object hd
    exact ⟨text.length - 2, by rw [← String.length_toList]; omega⟩
  rw [readAll_eq_ok]
  constructor
  · rintro ⟨r, hread, hend⟩
    obtain ⟨d, hd, hm⟩ := (hdirect 0 _ m r).1 hread
    obtain ⟨n, hn⟩ := hlong hd hm
    obtain ⟨d, hd, hm⟩ := (hdirect n _ m r).1 hread
    exact ⟨d, readAll_eq_ok.2 ⟨r, hn ▸ hd, hend⟩, hm⟩
  · rintro ⟨d, hread, hm⟩
    obtain ⟨r, hd, hend⟩ := readAll_eq_ok.1 hread
    obtain ⟨n, hn⟩ := hlong hd hm
    exact ⟨r, (hdirect n _ m r).2 ⟨d, hn ▸ hd, hm⟩, hend⟩

theorem StyleObject.parse_eq_ok {text : String} {o : StyleObject} :
    StyleObject.parse text = .ok o ↔ ∃ d, Json.read text = .ok d ∧ StyleObject.ofJson d = .ok o := by
  have hread := readAll_iff_read decodes_styleObject (fun _ _ => StyleObject.ofJson_eq_ok) text o
  rw [← hread, StyleObject.parse]
  cases readAll StyleObject.reader text <;> simp [Except.mapError]

theorem Declarations.parse_eq_ok {text : String} {m : Declarations} :
    Declarations.parse text = .ok m ↔
      ∃ d, Json.read text = .ok d ∧ Declarations.ofJson d = .ok m :=
  readAll_iff_read (fun depth => decodes_declarations (depth + 1))
    (fun _ _ => Declarations.ofJson_eq_ok) text m

/-! ## Collapsing -/

/-- Values are scalars, and these are not changed when names are cut away. -/
theorem StyleValue.ofJson_collapse {expected : Expectation} {d : Json} {v : StyleValue}
    (h : StyleValue.ofJson expected d = .ok v) : StyleValue.ofJson expected d.collapse = .ok v := by
  cases d with
  | null => exact h
  | bool b => exact h
  | number n => exact h
  | string t => exact h
  | array items => cases h
  | object members => cases h

/-- Overwritten members are overwritten in the document and in the block alike. -/
theorem DecodedBlock.collapse {α : Type} {decode : Json → Except Fault α} {d : Json}
    {m : OrderedMap String α} (h : DecodedBlock decode d m)
    (hdecode : ∀ d a, decode d = .ok a → decode d.collapse = .ok a) :
    DecodedBlock decode d.collapse m := by
  obtain ⟨members, ms, rfl, hms, rfl⟩ := h
  have hcollapsed : Pairs.Matched (fun d v => decode d = .ok v) (collapseMembers members) ms := by
    rw [collapseMembers_eq, Pairs.mapValues]
    exact List.forall₂_map_left_iff.2 (hms.imp fun p q hp => ⟨hp.1, hdecode _ _ hp.2⟩)
  exact ⟨_, _, rfl, OrderedMap.matched_ofList hcollapsed, (OrderedMap.ofList_toList _).symm⟩

theorem Declarations.ofJson_collapse {d : Json} {m : Declarations}
    (h : Declarations.ofJson d = .ok m) : Declarations.ofJson d.collapse = .ok m := by
  rw [Declarations.ofJson_eq_ok] at h ⊢
  exact h.collapse fun _ _ hv => StyleValue.ofJson_collapse hv

theorem StyleEntry.ofJson_collapse {d : Json} {e : StyleEntry} (h : StyleEntry.ofJson d = .ok e) :
    StyleEntry.ofJson d.collapse = .ok e := by
  rw [StyleEntry.ofJson_eq_ok] at h ⊢
  rcases h with ⟨m, hm, rfl⟩ | ⟨v, hv, rfl⟩
  · exact .inl ⟨m, hm.collapse fun _ _ hv => StyleValue.ofJson_collapse hv, rfl⟩
  · exact .inr ⟨v, StyleValue.ofJson_collapse hv, rfl⟩

theorem StyleObject.ofJson_collapse {d : Json} {o : StyleObject}
    (h : StyleObject.ofJson d = .ok o) : StyleObject.ofJson d.collapse = .ok o := by
  rw [StyleObject.ofJson_eq_ok] at h ⊢
  exact h.collapse fun _ _ he => StyleEntry.ofJson_collapse he

/-! ## The two ways agree -/

/-- What is read directly from a text is what the collapsed document of the text decodes to. The
other direction needs names to be distinct, since an ill-typed member that is overwritten later is
not in the collapsed document. -/
theorem parse_agrees_with_document (text : String) :
    (∀ o, StyleObject.parse text = .ok o →
      ∃ d, Json.read text = .ok d ∧ StyleObject.ofJson d.collapse = .ok o) ∧
    (∀ d o, Json.read text = .ok d → d.namesDistinct = true →
      StyleObject.ofJson d.collapse = .ok o → StyleObject.parse text = .ok o) ∧
    (∀ m, Declarations.parse text = .ok m →
      ∃ d, Json.read text = .ok d ∧ Declarations.ofJson d.collapse = .ok m) ∧
    (∀ d m, Json.read text = .ok d → d.namesDistinct = true →
      Declarations.ofJson d.collapse = .ok m → Declarations.parse text = .ok m) := by
  refine ⟨?_, ?_, ?_, ?_⟩
  · intro o h
    obtain ⟨d, hread, ho⟩ := StyleObject.parse_eq_ok.1 h
    exact ⟨d, hread, StyleObject.ofJson_collapse ho⟩
  · intro d o hread hdistinct ho
    rw [collapse_of_namesDistinct d hdistinct] at ho
    exact StyleObject.parse_eq_ok.2 ⟨d, hread, ho⟩
  · intro m h
    obtain ⟨d, hread, hm⟩ := Declarations.parse_eq_ok.1 h
    exact ⟨d, hread, Declarations.ofJson_collapse hm⟩
  · intro d m hread hdistinct hm
    rw [collapse_of_namesDistinct d hdistinct] at hm
    exact Declarations.parse_eq_ok.2 ⟨d, hread, hm⟩

theorem parse_agrees_with_document_repeated :
    let repeated := "\x7b\"a\":1,\"b\":\x7b\"x\":2.5,\"y\":null,\"x\":2\x7d,\"a\":\"s\"\x7d"
    let single := "\x7b\"a\":\"s\",\"b\":\x7b\"x\":2,\"y\":null\x7d\x7d"
    let block := "\x7b\"x\":-0,\"x\":1e3\x7d"
    let plain := "\x7b\"x\":1e3\x7d"
    let o : StyleObject := .ofList [("a", .value (.text "s")),
      ("b", .nested (.ofList [("x", .number (.ofInt 2)), ("y", .null)]))]
    let m : Declarations := .ofList [("x", .number (.ofInt 1000))]
    (∃ d, Json.read repeated = .ok d ∧ StyleObject.ofJson d.collapse = .ok o) ∧
      StyleObject.parse single = .ok o ∧
      (∃ d, Json.read block = .ok d ∧ Declarations.ofJson d.collapse = .ok m) ∧
      Declarations.parse plain = .ok m := by
  intro repeated single block plain o m
  have hrepeated : (StyleObject.parse repeated).toOption = some o := by decide +kernel
  have hsingle : (Json.read single).toOption.map (fun d =>
      (d.namesDistinct, (StyleObject.ofJson d.collapse).toOption)) = some (true, some o) := by
    decide +kernel
  have hblock : (Declarations.parse block).toOption = some m := by decide +kernel
  have hplain : (Json.read plain).toOption.map (fun d =>
      (d.namesDistinct, (Declarations.ofJson d.collapse).toOption)) = some (true, some m) := by
    decide +kernel
  obtain ⟨d, hd, e⟩ := Option.map_eq_some_iff.1 hsingle
  obtain ⟨hdistinct, ho⟩ := Prod.mk.inj e
  obtain ⟨d', hd', e'⟩ := Option.map_eq_some_iff.1 hplain
  obtain ⟨hdistinct', hm⟩ := Prod.mk.inj e'
  exact ⟨(parse_agrees_with_document repeated).1 o (toOption_eq_some.1 hrepeated),
    (parse_agrees_with_document single).2.1 d o (toOption_eq_some.1 hd) hdistinct
      (toOption_eq_some.1 ho),
    (parse_agrees_with_document block).2.2.1 m (toOption_eq_some.1 hblock),
    (parse_agrees_with_document plain).2.2.2 d' m (toOption_eq_some.1 hd') hdistinct'
      (toOption_eq_some.1 hm)⟩

/-- A document may be decoded of which the text is refused. -/
example : let text := "\x7b\"a\":true,\"a\":1\x7d"
    (StyleObject.parse text).toOption = none ∧
      ((Json.read text).toOption.bind fun d => (StyleObject.ofJson d.collapse).toOption) =
        some (.ofList [("a", .value (.number (.ofInt 1)))]) := by
  decide +kernel

end ScopedCss
