import ScopedCss.ContentHash
import ScopedCss.Element
import ScopedCss.Json.Document
import ScopedCss.Style.Group
import ScopedCss.Style.Merge
import ScopedCss.Style.Property
import ScopedCss.Style.Unit

/-!
# Compilation

A style object is compiled group by group: the declarations of a group are rendered as a body of
`property:value;` pairs, the (key, body) pairs are hashed as a JSON object to a class name, and the
name is put into one rule per group. Equal groups in equal order thus always give the same name and
the same rules.

A compiler is a hash function together with the property names it remembers. It is passed through
every function that renders declarations, since rendering remembers names.
-/

namespace ScopedCss

/-- A hash function and the property names seen so far. -/
structure Compiler where
  /-- The function that names content. -/
  hash : ContentHash
  /-- The property names hyphenated so far. -/
  names : PropertyNames
  deriving DecidableEq

/-- The text of a declaration of the property `spelled`, which is already hyphenated: nothing for a
null value. -/
def declarationText (spelled : String) (v : StyleValue) : String :=
  match v.render spelled with
  | some t => spelled ++ ":" ++ t ++ ";"
  | none => ""

/-- A selector, or an at-rule, with its block. -/
def blockText (head body : String) : String := head ++ "\x7b" ++ body ++ "\x7d"

/-- A selector in which every `&` is replaced by the selector of a class. -/
def fillSelector (key : String) (n : ClassName) : String :=
  String.ofList (key.toList.flatMap fun c => if c = '&' then n.selector.toList else [c])

/-- The rule of a class for the group with the given key and body. -/
def groupRule (n : ClassName) (key body : String) : StyleRule :=
  ⟨match GroupKind.of key with
    | .base => blockText n.selector body
    | .atRule => blockText key (blockText n.selector body)
    | .selector => blockText (fillSelector key n) body⟩

/-- The text whose hash names the content: the groups as a JSON object of strings. -/
def contentText (bodies : List (String × String)) : String :=
  (Json.object (bodies.map fun p => (p.1, Json.string p.2))).write

namespace Compiler

/-- A compiler that has not seen any name yet. -/
def ofHash (h : ContentHash) : Compiler := ⟨h, OrderedMap.empty⟩

/-- A fresh compiler with the standard hash. -/
def new : Compiler := ofHash .standard

instance : Inhabited Compiler := ⟨new⟩

/-- Forgets the property names. -/
def clearNames (c : Compiler) : Compiler := { c with names := OrderedMap.empty }

/-- The name as it is spelled in a sheet; the compiler remembers it. -/
def hyphenate (c : Compiler) (name : String) : String × Compiler :=
  let (spelled, names) := c.names.hyphenate name
  (spelled, { c with names })

/-- Renders declarations one after the other. Null values contribute nothing, but their names are
remembered too. -/
def renderPairs (c : Compiler) : List (String × StyleValue) → String × Compiler
  | [] => ("", c)
  | (name, v) :: rest =>
    let (spelled, c) := c.hyphenate name
    let (text, c) := renderPairs c rest
    (declarationText spelled v ++ text, c)

/-- Renders a block of declarations as `property:value;` pairs in their order. -/
def renderDeclarations (c : Compiler) (d : Declarations) : String × Compiler :=
  c.renderPairs d.toList

/-- Renders a rule that belongs to no class. -/
def renderGlobal (c : Compiler) (selector : String) (d : Declarations) : StyleRule × Compiler :=
  let (body, c) := c.renderDeclarations d
  (⟨blockText selector body⟩, c)

/-- Renders the body of each group. -/
def renderGroups (c : Compiler) : List (String × Declarations) → List (String × String) × Compiler
  | [] => ([], c)
  | (key, d) :: rest =>
    let (body, c) := c.renderDeclarations d
    let (bodies, c) := renderGroups c rest
    ((key, body) :: bodies, c)

/-- Compiles a style object to a fragment, or to nothing if no declaration is left in it. -/
def compile (c : Compiler) (o : StyleObject) : Option Fragment × Compiler :=
  let groups := o.groups
  if groups.isEmpty then (none, c)
  else
    let (bodies, c) := c.renderGroups groups.toList
    let name := c.hash.identifier (contentText bodies)
    (some ⟨name, bodies.map fun p => groupRule name p.1 p.2⟩, c)

/-- Builds an element: the elements among the inputs are composed in their order, the style objects
are merged from left to right and compiled into the fragment of the element itself. -/
def build (c : Compiler) (inputs : List StyleInput) : StyleElement × Compiler :=
  let (owned, c) := c.compile (StyleObject.mergeAll (StyleInput.objects inputs))
  (.node (StyleInput.elements inputs) owned, c)

end Compiler

end ScopedCss
