import ScopedCss.Proofs.Compiler.History
import ScopedCss.Proofs.ContentHash
import ScopedCss.Proofs.Json.Strings

/-!
# What the hashed text tells

The text that is hashed for a style object is a JSON object of strings, its keys and bodies any texts at
all. A written string shows by itself where it ends, and so the members can be taken off one by one: no
two lists of groups are written alike. Two objects with the same hashed text thus have the same rules
under every hash, and only the hash can give one name to two of them that differ.
-/

namespace ScopedCss

/-! ## Members that are strings -/

namespace Json

/-- What is written behind a member: a comma and the other members, if there are any. -/
def furtherMembers : List (String × Json) → List Char
  | [] => []
  | m :: ms => ',' :: charsOfMembers (m :: ms)

theorem charsOfMembers_cons (name : String) (d : Json) (ms : List (String × Json)) :
    charsOfMembers ((name, d) :: ms) = writeString name ++ ':' :: (d.chars ++ furtherMembers ms) := by
  cases ms with
  | nil =>
    show writeString name ++ ':' :: d.chars = _
    rw [furtherMembers, List.append_nil]
  | cons m ms => rfl

theorem charsOfMembers_ne_nil (m : String × Json) (ms : List (String × Json)) :
    charsOfMembers (m :: ms) ≠ [] := by
  rw [charsOfMembers_cons, writeString_append]
  exact List.cons_ne_nil _ _

/-- What stands behind the first member shows whether there are others, by its first character. -/
theorem furtherMembers_inj {ms ms' : List (String × Json)} (h : furtherMembers ms = furtherMembers ms') :
    charsOfMembers ms = charsOfMembers ms' := by
  cases ms with
  | nil =>
    cases ms' with
    | nil => rfl
    | cons m' ms' => cases h
  | cons m ms =>
    cases ms' with
    | nil => cases h
    | cons m' ms' => exact (List.cons.inj h).2

/-- The members of an object in which everything is a string. -/
def stringMembers (bodies : List (String × String)) : List (String × Json) :=
  bodies.map fun b => (b.1, string b.2)

/-- The key is taken off, then the body, and what is left are the other members. -/
theorem stringMembers_inj {bodies bodies' : List (String × String)}
    (h : charsOfMembers (stringMembers bodies) = charsOfMembers (stringMembers bodies')) :
    bodies = bodies' := by
  induction bodies generalizing bodies' with
  | nil =>
    cases bodies' with
    | nil => rfl
    | cons b' bodies' => exact absurd h.symm (charsOfMembers_ne_nil _ _)
  | cons b bodies ih =>
    cases bodies' with
    | nil => exact absurd h (charsOfMembers_ne_nil _ _)
    | cons b' bodies' =>
      obtain ⟨key, body⟩ := b
      obtain ⟨key', body'⟩ := b'
      have hmembers : writeString key ++ ':' :: (writeString body ++ furtherMembers (stringMembers bodies)) =
          writeString key' ++ ':' :: (writeString body' ++ furtherMembers (stringMembers bodies')) := by
        have hcons := charsOfMembers_cons key (.string body) (stringMembers bodies)
        have hcons' := charsOfMembers_cons key' (.string body') (stringMembers bodies')
        exact hcons.symm.trans (h.trans hcons')
      obtain ⟨rfl, hrest⟩ := writeString_append_inj hmembers
      obtain ⟨rfl, hfurther⟩ := writeString_append_inj (List.cons.inj hrest).2
      rw [ih (furtherMembers_inj hfurther)]

end Json

open Json

theorem contentText_inj {bodies bodies' : List (String × String)}
    (h : contentText bodies = contentText bodies') : bodies = bodies' := by
  have hchars : '{' :: (charsOfMembers (stringMembers bodies) ++ ['}']) =
      '{' :: (charsOfMembers (stringMembers bodies') ++ ['}']) := by
    have h := congrArg String.toList h
    rwa [contentText, contentText, write, write, String.toList_ofList, String.toList_ofList] at h
  exact stringMembers_inj (List.append_cancel_right (List.cons.inj hchars).2)

/-! ## Hashed texts -/

theorem keys_bodiesOf (groups : List (String × Declarations)) :
    Pairs.keys (bodiesOf groups) = Pairs.keys groups := by
  rw [bodiesOf, Pairs.keys, Pairs.keys, List.map_map]
  rfl

/-- A fragment is made of the rendered bodies alone. -/
theorem fragmentOf_congr {groups groups' : List (String × Declarations)} (h : ContentHash)
    (hbodies : bodiesOf groups = bodiesOf groups') : fragmentOf h groups = fragmentOf h groups' := by
  have hempty : groups.isEmpty = groups'.isEmpty := by
    have hmap : ∀ gs : List (String × Declarations), (bodiesOf gs).isEmpty = gs.isEmpty := by
      intro gs
      exact List.isEmpty_map
    rw [← hmap, ← hmap, hbodies]
  simp only [fragmentOf, hbodies, hempty]

/-- The name of a fragment is the hash of what was written for its groups. -/
theorem className_fragmentOf {h : ContentHash} {groups : List (String × Declarations)} {f : Fragment}
    (hf : fragmentOf h groups = some f) :
    f.className = h.identifier (contentText (bodiesOf groups)) := by
  unfold fragmentOf at hf
  split at hf
  · cases hf
  · cases hf
    rfl

namespace Compiler

/-- The groups of a style object as the compiler renders them, each body under its key. -/
def renderedGroups (c : Compiler) (o : StyleObject) : List (String × String) :=
  (c.renderGroups o.groups.toList).1

/-- The text that is hashed for a style object. -/
def hashedText (c : Compiler) (o : StyleObject) : String := contentText (c.renderedGroups o)

theorem renderedGroups_after (h : ContentHash) (calls : List CompilerCall) (o : StyleObject) :
    ((ofHash h).after calls).renderedGroups o = bodiesOf o.groups.toList := by
  obtain ⟨c', hbodies, -⟩ := (faithful_after h calls).renderGroups o.groups.toList
  rw [renderedGroups, hbodies]

theorem compile_after (h : ContentHash) (calls : List CompilerCall) (o : StyleObject) :
    (((ofHash h).after calls).compile o).1 = fragmentOf h o.groups.toList := by
  obtain ⟨c', hcompile, -⟩ := (faithful_after h calls).compile o
  rw [hcompile]

/-- Whatever two compilers were called for before, the texts that they hash for two style objects are
the same only if the objects have the same keys and the same bodies in the same order, and then they are
compiled to the same fragment under every hash. Under one hash, objects that are rendered differently
get the same name only if their different texts have the same hash, or the hashes 0 and 52. -/
theorem hashedText_determines_fragment {h h' : ContentHash} {calls calls' : List CompilerCall}
    {o o' : StyleObject} {f f' : Fragment} (hf : (((ofHash h).after calls).compile o).1 = some f)
    (hf' : (((ofHash h').after calls').compile o').1 = some f') :
    let c := (ofHash h).after calls
    let c' := (ofHash h').after calls'
    let t := c.hashedText o
    let t' := c'.hashedText o'
    f.className = h.identifier t ∧ f'.className = h'.identifier t' ∧
    (t = t' → o.groups.keys = o'.groups.keys ∧ c.renderedGroups o = c'.renderedGroups o' ∧
      ∀ g calls calls', ∃ k, (((ofHash g).after calls).compile o).1 = some k ∧
        (((ofHash g).after calls').compile o').1 = some k) ∧
    (h = h' → c.renderedGroups o ≠ c'.renderedGroups o' → f.className = f'.className →
      t ≠ t' ∧ (h.ofText t = h.ofText t' ∨ (h.ofText t = 0 ∧ h.ofText t' = 52) ∨
        (h.ofText t = 52 ∧ h.ofText t' = 0))) := by
  intro c c' t t'
  have hbodies : c.renderedGroups o = bodiesOf o.groups.toList := renderedGroups_after h calls o
  have hbodies' : c'.renderedGroups o' = bodiesOf o'.groups.toList := renderedGroups_after h' calls' o'
  rw [compile_after] at hf hf'
  have hname : f.className = h.identifier t := by
    rw [className_fragmentOf hf, ← hbodies]
    rfl
  have hname' : f'.className = h'.identifier t' := by
    rw [className_fragmentOf hf', ← hbodies']
    rfl
  refine ⟨hname, hname', ?_, ?_⟩
  · intro htext
    have hsame : c.renderedGroups o = c'.renderedGroups o' := contentText_inj htext
    have hgroups : bodiesOf o.groups.toList = bodiesOf o'.groups.toList := by
      rw [← hbodies, ← hbodies', hsame]
    refine ⟨?_, hsame, ?_⟩
    · rw [OrderedMap.keys, OrderedMap.keys, ← keys_bodiesOf, hgroups, keys_bodiesOf]
    · intro g calls calls'
      have hne : o.groups.toList ≠ [] := by
        intro hnil
        rw [hnil] at hf
        cases hf
      obtain ⟨k, hk⟩ := exists_fragmentOf g hne
      refine ⟨k, ?_, ?_⟩
      · rw [compile_after, hk]
      · rw [compile_after, ← fragmentOf_congr g hgroups, hk]
  · rintro rfl hdiffer hshared
    rw [hname, hname', ContentHash.identifier_eq_iff] at hshared
    refine ⟨?_, hshared⟩
    intro htext
    exact hdiffer (contentText_inj htext)

/-- A key and a body with quotes, braces and a control character, spelled in two ways; and two values
that are rendered differently and get one name. -/
theorem hashedText_determines_fragment_quoted :
    let o : StyleObject := .ofList [("width", .value (.number (.ofInt 10))),
      ("&[title=\"a\"]", .nested (.ofList [("content", .text "\"\x7d\",\x01")]))]
    let o' : StyleObject := .ofList [("&[title=\"a\"]", .nested (.ofList [("color", .null),
      ("content", .text "\"\x7d\",\x01")])), ("width", .value (.text "10px"))]
    let p : StyleObject := .ofList [("color", .value (.text "np"))]
    let p' : StyleObject := .ofList [("color", .value (.text "0n"))]
    new.renderedGroups o = [("", "width:10px;"), ("&[title=\"a\"]", "content:\"\x7d\",\x01;")] ∧
      new.renderedGroups o = new.renderedGroups o' ∧
      (∀ g, ∃ k, ((ofHash g).compile o).1 = some k ∧ ((ofHash g).compile o').1 = some k) ∧
      ∃ f f', (new.compile p).1 = some f ∧ (new.compile p').1 = some f' ∧ f.className = f'.className ∧
        f.rules ≠ f'.rules ∧
        ContentHash.standard.ofText (new.hashedText p) = ContentHash.standard.ofText (new.hashedText p') := by
  intro o o' p p'
  have hcompiled : ∀ q : StyleObject, (new.compile q).1.isSome = true → ∃ f, (new.compile q).1 = some f :=
    fun q hq => Option.isSome_iff_exists.1 hq
  obtain ⟨k, hk⟩ := hcompiled o (by decide +kernel)
  obtain ⟨k', hk'⟩ := hcompiled o' (by decide +kernel)
  obtain ⟨f, hf⟩ := hcompiled p (by decide +kernel)
  obtain ⟨f', hf'⟩ := hcompiled p' (by decide +kernel)
  obtain ⟨-, -, hsame, -⟩ := @hashedText_determines_fragment _ _ [] [] _ _ _ _ hk hk'
  obtain ⟨-, -, -, hshared⟩ := @hashedText_determines_fragment _ _ [] [] _ _ _ _ hf hf'
  obtain ⟨-, hgroups, hfragment⟩ := hsame (by decide +kernel)
  have hname : f.className = f'.className := by
    have hnames : (new.compile p).1.map Fragment.className =
        (new.compile p').1.map Fragment.className := by
      decide +kernel
    rw [hf, hf'] at hnames
    exact Option.some.inj hnames
  have hrules : f.rules ≠ f'.rules := by
    have hdiffer : (new.compile p).1.map Fragment.rules ≠ (new.compile p').1.map Fragment.rules := by
      decide +kernel
    rw [hf, hf'] at hdiffer
    intro hrules
    exact hdiffer (congrArg some hrules)
  obtain ⟨-, hhash⟩ := hshared rfl (by decide +kernel) hname
  have hzero : ContentHash.standard.ofText (new.hashedText p) ≠ 0 ∧
      ContentHash.standard.ofText (new.hashedText p) ≠ 52 := by
    decide +kernel
  refine ⟨by decide +kernel, hgroups, fun g => hfragment g [] [], f, f', hf, hf', hname, hrules, ?_⟩
  rcases hhash with hhash | ⟨hhash, -⟩ | ⟨hhash, -⟩
  · exact hhash
  · exact absurd hhash hzero.1
  · exact absurd hhash hzero.2

end Compiler

end ScopedCss
