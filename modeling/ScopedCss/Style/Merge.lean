import ScopedCss.Style.Value

/-!
# Merging style objects

Style objects are merged from left to right and the later one wins, key by key. Two blocks under
the same key are merged declaration by declaration; a value and a block under the same key are
not mixed, the later one stands alone. Null values take part like any other, so a later null
removes what an earlier object has set.
-/

namespace ScopedCss

/-- What a new entry becomes over an old one: a block is laid over a block, anything else replaces
what was there. -/
def StyleEntry.over (new : StyleEntry) (old : Option StyleEntry) : StyleEntry :=
  match new, old with
  | .nested d, some (.nested existing) => .nested (existing.merge d)
  | e, _ => e

namespace StyleObject

/-- Lays one entry over a style object. -/
def overlay (o : StyleObject) (key : String) (e : StyleEntry) : StyleObject :=
  o.set key (e.over (o.get? key))

/-- Lays the entries of `p`, in order, over `o`. -/
def mergeWith (o p : StyleObject) : StyleObject :=
  p.toList.foldl (fun o e => overlay o e.1 e.2) o

/-- Merges style objects from left to right. -/
def mergeAll (objects : List StyleObject) : StyleObject := objects.foldl mergeWith OrderedMap.empty

end StyleObject

end ScopedCss
