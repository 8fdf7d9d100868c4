import ScopedCss.Style.Value

/-!
# Groups of a style object

Each group of declarations becomes one rule. The base group, under the empty key, holds the
properties of the object itself and comes first; every nested block is a group under its own key.
Null values are left out, and so are groups in which nothing remains.
-/

namespace ScopedCss

/-- What a group key means for the rule. -/
inductive GroupKind where
  /-- The declarations apply to the class itself. -/
  | base
  /-- The key wraps the rule of the class, as `@media print` does. -/
  | atRule
  /-- The key is a selector in which `&` stands for that of the class. -/
  | selector
  deriving DecidableEq

/-- The kind of a group key. -/
def GroupKind.of (key : String) : GroupKind :=
  match key.toList with
  | [] => .base
  | '@' :: _ => .atRule
  | _ => .selector

namespace StyleObject

/-- The groups, base group first and possibly empty, before any entry is seen. -/
def noGroups : OrderedMap String Declarations := OrderedMap.empty.set "" OrderedMap.empty

/-- Adds one entry to the groups: a value to the base group, a block to the group of its key. -/
def addToGroups (groups : OrderedMap String Declarations) (key : String) :
    StyleEntry → OrderedMap String Declarations
  | .value .null => groups
  | .value v => groups.update "" fun base => base.set key v
  | .nested d =>
    match groups.get? key with
    | some existing => groups.set key (existing.merge (Declarations.withoutNulls d))
    | none => groups.set key (Declarations.withoutNulls d)

/-- The groups of a style object. -/
def groups (o : StyleObject) : OrderedMap String Declarations :=
  (o.toList.foldl (fun gs e => addToGroups gs e.1 e.2) noGroups).filter fun _ d => !d.isEmpty

end StyleObject

end ScopedCss
