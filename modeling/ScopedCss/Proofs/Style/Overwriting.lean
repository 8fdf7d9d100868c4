import ScopedCss.Proofs.MapEvents
import ScopedCss.Proofs.Style.Decode
import ScopedCss.Proofs.Style.Mentions

/-!
# Blocks and style objects as maps

Whatever is done to a block or to a style object, one call after the other, can be told as writes under
single keys: collecting and decoding make a new map from pairs, merging lays one pair after the other
over what is there. A log of these writes is kept beside the map (`BlockStep.run`, `ObjectStep.run`), and
every step is shown to do to the map what it adds to the log.
-/

namespace ScopedCss

open Json MapEvent

/-! ## Writing pairs -/

namespace OrderedMap.Follows

variable {κ α : Type} [DecidableEq κ] {m : OrderedMap κ α} {log : List (MapEvent κ α)}

theorem nodup_keys (h : m.Follows log) : m.keys.Nodup := by
  refine h.keys.imp ?_
  rintro k _ hlt rfl
  exact lt_irrefl _ hlt

theorem setAll (h : m.Follows log) (ps : List (κ × α)) : (m.setAll ps).Follows (log ++ puts ps) := by
  have hputs : (puts ps).foldl MapEvent.apply m = m.setAll ps := List.foldl_map
  rw [← hputs]
  exact h.applyAll (puts ps)

theorem ofList (ps : List (κ × α)) : (OrderedMap.ofList ps).Follows (puts ps) := empty.setAll ps

end OrderedMap.Follows

theorem isPlainEvent_of_mem_puts {κ α : Type} {ps : List (κ × α)} {e : MapEvent κ α}
    (h : e ∈ puts ps) : IsPlainEvent e := by
  obtain ⟨p, -, rfl⟩ := List.mem_map.1 h
  exact .inl ⟨p.1, p.2, rfl⟩

/-! ## Decoding -/

section Decoding

variable {α : Type} {decode : Json → Except Fault α}

/-- The members of a document that is an object, each with what it is decoded to. -/
def decodedMembers (decode : Json → Except Fault α) : Json → Option (List (String × α))
  | .object members => (decodeMembers decode members).toOption
  | _ => none

/-- The pairs that a document decodes to, if it is an object of which every member can be decoded.
-/
theorem decodedMembers_eq_some {d : Json} {ps : List (String × α)} :
    decodedMembers decode d = some ps ↔
      ∃ members, d = .object members ∧ Pairs.Matched (fun d v => decode d = .ok v) members ps := by
  unfold decodedMembers
  split
  · next members =>
    rw [toOption_eq_some, decodeMembers_eq_ok]
    constructor
    · intro h
      exact ⟨members, rfl, h⟩
    · rintro ⟨_, e, h⟩
      cases e
      exact h
  · next hd =>
    refine iff_of_false nofun ?_
    rintro ⟨members, e, -⟩
    exact hd members e

/-- A map that is decoded from a document follows the members of the document. -/
theorem toOption_of_decodedBlock {d : Json} {x : Except Fault (OrderedMap String α)}
    (h : ∀ m, x = .ok m ↔ DecodedBlock decode d m) :
    x.toOption = (decodedMembers decode d).map OrderedMap.ofList := by
  ext m
  rw [toOption_eq_some, h, Option.map_eq_some_iff]
  constructor
  · rintro ⟨members, ps, hd, hps, rfl⟩
    exact ⟨ps, decodedMembers_eq_some.2 ⟨members, hd, hps⟩, rfl⟩
  · rintro ⟨ps, hps, rfl⟩
    obtain ⟨members, hd, hmembers⟩ := decodedMembers_eq_some.1 hps
    exact ⟨members, ps, hd, hmembers, rfl⟩

/-- The log of a map that a decoded one takes the place of, if there is one. -/
def replaced (log : List (MapEvent String α)) (ps? : Option (List (String × α))) :
    List (MapEvent String α) := ps?.elim log puts

theorem OrderedMap.Follows.replaced {m : OrderedMap String α} {log : List (MapEvent String α)}
    (h : m.Follows log) (ps? : Option (List (String × α))) :
    ((ps?.map OrderedMap.ofList).getD m).Follows (replaced log ps?) := by
  cases ps? with
  | none => exact h
  | some ps => exact .ofList ps

end Decoding

/-! ## Blocks -/

/-- What can be done to a block. -/
inductive BlockStep where
  /-- Sets a property. -/
  | set (name : String) (v : StyleValue)
  /-- Makes a block from pairs in place of the old one. -/
  | collect (ps : List (String × StyleValue))
  /-- Lays another block over it. -/
  | merge (d : Declarations)
  /-- Strips the null values. -/
  | withoutNulls
  /-- Reads a text as a block, which takes the place of the old one. -/
  | parse (text : String)
  /-- Decodes a document to a block, which takes the place of the old one. -/
  | decode (d : Json)

namespace BlockStep

/-- The block after a step. What cannot be decoded leaves it as it was. -/
def apply (d : Declarations) : BlockStep → Declarations
  | .set name v => OrderedMap.set d name v
  | .collect ps => OrderedMap.ofList ps
  | .merge e => OrderedMap.merge d e
  | .withoutNulls => d.withoutNulls
  | .parse text => (Declarations.parse text).toOption.getD d
  | .decode doc => (Declarations.ofJson doc).toOption.getD d

/-- The log after a step: what is written to the old block, or to the new one that takes its place. -/
def record (log : List (MapEvent String StyleValue)) : BlockStep → List (MapEvent String StyleValue)
  | .set name v => log ++ [.put name v]
  | .collect ps => puts ps
  | .merge e => log ++ puts e.toList
  | .withoutNulls => log ++ [.strip fun v => !v.isNull]
  | .parse text =>
    replaced log ((Json.read text).toOption.bind (decodedMembers (StyleValue.ofJson .value)))
  | .decode doc => replaced log (decodedMembers (StyleValue.ofJson .value) doc)

/-- The block that is made by steps, from an empty one, with its log. -/
def run (steps : List BlockStep) : Declarations × List (MapEvent String StyleValue) :=
  steps.foldl (fun s step => (step.apply s.1, step.record s.2)) (.empty, [])

/-- Each step on a block does to the block what it adds to the log. -/
theorem follows {d : Declarations} {log : List (MapEvent String StyleValue)} (h : d.Follows log)
    (step : BlockStep) : (step.apply d).Follows (step.record log) := by
  have hdocument : ∀ doc, (Declarations.ofJson doc).toOption =
      (decodedMembers (StyleValue.ofJson .value) doc).map OrderedMap.ofList := fun doc =>
    toOption_of_decodedBlock fun _ => Declarations.ofJson_eq_ok
  cases step with
  | set name v => exact h.apply (.put name v)
  | collect ps => exact .ofList ps
  | merge e => exact h.setAll e.toList
  | withoutNulls => exact h.apply (.strip fun v => !v.isNull)
  | parse text =>
    have htext : (Declarations.parse text).toOption = ((Json.read text).toOption.bind
        (decodedMembers (StyleValue.ofJson .value))).map OrderedMap.ofList := by
      ext m
      rw [toOption_eq_some, Declarations.parse_eq_ok, Option.map_bind, Option.bind_eq_some_iff]
      simp only [toOption_eq_some, Function.comp_apply, ← hdocument]
    rw [apply, htext]
    exact h.replaced _
  | decode doc =>
    rw [apply, hdocument]
    exact h.replaced _

/-- Blocks are only written to and stripped, so what is said of a name is the value last put there.
-/
theorem isPlainEvent_record {log : List (MapEvent String StyleValue)} (hlog : ∀ e ∈ log, IsPlainEvent e)
    (step : BlockStep) : ∀ e ∈ step.record log, IsPlainEvent e := by
  have happend : ∀ es, (∀ e ∈ es, IsPlainEvent e) → ∀ e ∈ log ++ es, IsPlainEvent e := fun es hes e he =>
    (List.mem_append.1 he).elim (hlog e) (hes e)
  have hreplaced : ∀ ps?, ∀ e ∈ replaced log ps?, IsPlainEvent e := by
    intro ps? e he
    cases ps? with
    | none => exact hlog e he
    | some ps => exact isPlainEvent_of_mem_puts he
  cases step with
  | set name v => exact happend _ (List.forall_mem_singleton.2 (.inl ⟨name, v, rfl⟩))
  | collect ps => exact fun e => isPlainEvent_of_mem_puts
  | merge d => exact happend _ fun e => isPlainEvent_of_mem_puts
  | withoutNulls => exact happend _ (List.forall_mem_singleton.2 (.inr ⟨_, rfl⟩))
  | parse text => exact hreplaced _
  | decode doc => exact hreplaced _

theorem run_concat (steps : List BlockStep) (step : BlockStep) :
    run (steps ++ [step]) = (step.apply (run steps).1, step.record (run steps).2) := List.foldl_append

theorem run_follows (steps : List BlockStep) : (run steps).1.Follows (run steps).2 := by
  induction steps using List.reverseRecOn with
  | nil => exact .empty
  | append_singleton steps step ih =>
    rw [run_concat]
    exact follows ih step

theorem isPlainEvent_run (steps : List BlockStep) : ∀ e ∈ (run steps).2, IsPlainEvent e := by
  induction steps using List.reverseRecOn with
  | nil => nofun
  | append_singleton steps step ih =>
    rw [run_concat]
    exact isPlainEvent_record ih step

end BlockStep

/-! ## Style objects -/

/-- What can be done to a style object. -/
inductive ObjectStep where
  /-- Sets a property, or a nested block. -/
  | set (key : String) (e : StyleEntry)
  /-- Changes what stands under a key, in place. -/
  | edit (key : String) (f : StyleEntry → StyleEntry)
  /-- Merges it with other objects before and after it to a new object in its place. -/
  | merge (before later : List StyleObject)
  /-- Reads a text as a style object, which takes the place of the old one. -/
  | parse (text : String)
  /-- Decodes a document to a style object, which takes the place of the old one. -/
  | decode (d : Json)

namespace ObjectStep

/-- The object after a step. What cannot be decoded leaves it as it was. -/
def apply (o : StyleObject) : ObjectStep → StyleObject
  | .set key e => OrderedMap.set o key e
  | .edit key f => OrderedMap.update o key f
  | .merge before later => StyleObject.mergeAll (before ++ o :: later)
  | .parse text => (StyleObject.parse text).toOption.getD o
  | .decode doc => (StyleObject.ofJson doc).toOption.getD o

/-- Entries are laid over what stands under their keys, one after the other. -/
def overlays (es : List (String × StyleEntry)) : List (MapEvent String StyleEntry) :=
  es.map fun p => .write p.1 p.2.over

/-- The log after a step: what is written to the old object, or to the new one that takes its place. -/
def record (o : StyleObject) (log : List (MapEvent String StyleEntry)) :
    ObjectStep → List (MapEvent String StyleEntry)
  | .set key e => log ++ [.put key e]
  | .edit key f => log ++ [.edit key f]
  | .merge before later => overlays ((before ++ o :: later).flatMap OrderedMap.toList)
  | .parse text => replaced log ((Json.read text).toOption.bind (decodedMembers StyleEntry.ofJson))
  | .decode doc => replaced log (decodedMembers StyleEntry.ofJson doc)

/-- The object that is made by steps, from an empty one, with its log. -/
def run (steps : List ObjectStep) : StyleObject × List (MapEvent String StyleEntry) :=
  steps.foldl (fun s step => (step.apply s.1, step.record s.1 s.2)) (.empty, [])

/-- A merged object follows the log of all its entries laid over one another. -/
theorem follows_mergeAll (objects : List StyleObject) :
    (StyleObject.mergeAll objects).Follows (overlays (objects.flatMap OrderedMap.toList)) := by
  have hoverlays : (overlays (objects.flatMap OrderedMap.toList)).foldl MapEvent.apply .empty =
      StyleObject.mergeAll objects := by
    rw [StyleObject.mergeAll_eq_written]
    exact List.foldl_map
  rw [← hoverlays]
  exact OrderedMap.Follows.empty.applyAll _

/-- Each step on an object does to the object what it adds to the log. -/
theorem follows {o : StyleObject} {log : List (MapEvent String StyleEntry)} (h : o.Follows log)
    (step : ObjectStep) : (step.apply o).Follows (step.record o log) := by
  have hdocument : ∀ doc, (StyleObject.ofJson doc).toOption =
      (decodedMembers StyleEntry.ofJson doc).map OrderedMap.ofList := fun doc =>
    toOption_of_decodedBlock fun _ => StyleObject.ofJson_eq_ok
  cases step with
  | set key e => exact h.apply (.put key e)
  | edit key f => exact h.apply (.edit key f)
  | merge before later => exact follows_mergeAll (before ++ o :: later)
  | parse text =>
    have htext : (StyleObject.parse text).toOption = ((Json.read text).toOption.bind
        (decodedMembers StyleEntry.ofJson)).map OrderedMap.ofList := by
      ext m
      rw [toOption_eq_some, StyleObject.parse_eq_ok, Option.map_bind, Option.bind_eq_some_iff]
      simp only [toOption_eq_some, Function.comp_apply, ← hdocument]
    rw [apply, htext]
    exact h.replaced _
  | decode doc =>
    rw [apply, hdocument]
    exact h.replaced _

/-- So whatever was done to an object, it follows its log. -/
theorem run_follows (steps : List ObjectStep) : (run steps).1.Follows (run steps).2 := by
  induction steps using List.reverseRecOn with
  | nil => exact .empty
  | append_singleton steps step ih =>
    have hrun : run (steps ++ [step]) =
        (step.apply (run steps).1, step.record (run steps).1 (run steps).2) := List.foldl_append
    rw [hrun]
    exact follows ih step

end ObjectStep

/-- Blocks and style objects are ordered maps, whatever was done to them. Their keys are pairwise
distinct. They have under each key what the log leaves there: in a block that is the value that was
put there last, unless it was null and has been stripped, and in an object in the same way the entry that
was put there last, or what was made of it since. And their keys stand in the order in which they came
in. -/
theorem styles_overwrite_in_place :
    (∀ steps : List BlockStep,
      let d := (BlockStep.run steps).1
      let log := (BlockStep.run steps).2
      d.keys.Nodup ∧ d.Follows log ∧ ∀ name v, d.get? name = some v ↔ PutLast name v log) ∧
    ∀ steps : List ObjectStep,
      let o := (ObjectStep.run steps).1
      let log := (ObjectStep.run steps).2
      o.keys.Nodup ∧ o.Follows log ∧ ∀ key e, PutLast key e log → o.get? key = some e := by
  constructor
  · intro steps d log
    have hfollows : d.Follows log := BlockStep.run_follows steps
    refine ⟨hfollows.nodup_keys, hfollows, fun name v => ?_⟩
    rw [hfollows.get?]
    exact standing_eq_some_iff (BlockStep.isPlainEvent_run steps)
  · intro steps o log
    have hfollows : o.Follows log := ObjectStep.run_follows steps
    refine ⟨hfollows.nodup_keys, hfollows, fun key e hput => ?_⟩
    rw [hfollows.get?]
    exact hput.standing_eq

/-- A property that was stripped as null and comes in again stands last; a key that is repeated in a text,
and one that is overwritten, stay where they are. -/
theorem styles_overwrite_in_place_again :
    let block := (BlockStep.run [.set "left" .null, .set "top" (.text "1"), .set "color" (.text "red"),
      .set "top" (.text "2"), .withoutNulls, .collect [], .parse "\x7b\"left\":null,\"top\":\"1\"\x7d",
      .withoutNulls, .merge ⟨[("left", .text "3"), ("top", .text "2")], by decide⟩]).1
    let steps : List ObjectStep := [.parse "\x7b\"a\":1,\"b\":null,\"a\":\"x\"\x7d",
      .edit "b" fun _ => .value (.text "y"), .edit "c" id, .set "a" (.value .null)]
    let o := (ObjectStep.run steps).1
    (block.toList = [("top", .text "2"), ("left", .text "3")] ∧ block.keys.Nodup) ∧
    PutLast "a" (.value .null) (ObjectStep.run steps).2 ∧ o.get? "a" = some (.value .null) ∧
    o.toList = [("a", .value .null), ("b", .value (.text "y"))] ∧ o.Follows (ObjectStep.run steps).2 := by
  intro block steps o
  obtain ⟨hblocks, hobjects⟩ := styles_overwrite_in_place
  obtain ⟨-, hfollows, hget⟩ := hobjects steps
  have hput : PutLast "a" (.value .null) (ObjectStep.run steps).2 := ⟨_, [], rfl, nofun, nofun⟩
  exact ⟨⟨by decide +kernel, (hblocks _).1⟩, hput, hget "a" _ hput, by decide +kernel, hfollows⟩

end ScopedCss
