import ScopedCss.ClassName
import ScopedCss.Rule
import ScopedCss.Style.Value

/-!
# Style elements

A style element is what a node of a page is styled with: elements that were built before it,
composed in order, and possibly a fragment of its own, that is a class name with the rules for it.
Elements are immutable values, so an element may be composed into many others and occurs in their
trees once per path.

Everything else about an element follows from its tree, read children first: the fragments it
stands for, the class list, the rules. This order is also the order of insertion, so that the rules
of an element come after those of the elements it composes and win over them.
-/

namespace ScopedCss

/-- A class name with the rules that belong to it. -/
structure Fragment where
  /-- The name, computed from the content. -/
  className : ClassName
  /-- The rules, in order. -/
  rules : List StyleRule
  deriving DecidableEq

/-- A style element: the elements it is composed of, and what it contributes itself.

The class list is computed from the tree (`classList`), as the compiler does when it builds an element.
The program stores it in a field beside the tree; elements that are put together by hand with some other
text in that field are left out here. -/
inductive StyleElement where
  /-- Composes `composed`, in order, and adds `owned`. -/
  | node (composed : List StyleElement) (owned : Option Fragment)

namespace StyleElement

/-- The element that contributes nothing. -/
def empty : StyleElement := .node [] none

instance : Inhabited StyleElement := ⟨empty⟩

/-- The elements this one is composed of, in order. -/
def composed : StyleElement → List StyleElement
  | .node cs _ => cs

/-- What the element contributes itself. -/
def owned : StyleElement → Option Fragment
  | .node _ f => f

mutual

/-- The fragments of the tree, children first, once per path. -/
def fragments : StyleElement → List Fragment
  | .node cs owned => fragmentsOfAll cs ++ owned.toList
termination_by structural e => e

/-- The fragments of several trees, one after the other. -/
def fragmentsOfAll : List StyleElement → List Fragment
  | [] => []
  | e :: es => fragments e ++ fragmentsOfAll es
termination_by structural es => es

end

mutual

/-- The names to put on a node, separated by blanks: those of every composed element, then the
name of the element itself. -/
def classList : StyleElement → String
  | .node cs owned =>
    joinClassNames ((classListsOf cs).map some ++ [owned.map fun f => f.className.text])
termination_by structural e => e

/-- The class lists of several elements. -/
def classListsOf : List StyleElement → List String
  | [] => []
  | e :: es => classList e :: classListsOf es
termination_by structural es => es

end

mutual

/-- The rules of the tree, children first, once per path. -/
def flattenRules : StyleElement → List StyleRule
  | .node cs owned => flattenAll cs ++ owned.elim [] Fragment.rules
termination_by structural e => e

/-- The rules of several trees, one after the other. -/
def flattenAll : List StyleElement → List StyleRule
  | [] => []
  | e :: es => flattenRules e ++ flattenAll es
termination_by structural es => es

end

mutual

/-- The number of elements in the tree, once per path. -/
def treeSize : StyleElement → Nat
  | .node cs _ => 1 + treeSizes cs
termination_by structural e => e

/-- The number of elements in several trees. -/
def treeSizes : List StyleElement → Nat
  | [] => 0
  | e :: es => treeSize e + treeSizes es
termination_by structural es => es

end

/-- Whether neither the element nor anything in it contributes a class. -/
def isEmpty (e : StyleElement) : Bool := e.classList.isEmpty

mutual

/-- Elements are equal if they are composed alike and own the same. -/
def decEq : (a b : StyleElement) → Decidable (a = b)
  | .node as f, .node bs g =>
    match decEqAll as bs with
    | isTrue h =>
      if hf : f = g then isTrue (by rw [h, hf]) else isFalse fun e => hf (by injection e)
    | isFalse h => isFalse fun e => h (by injection e)
termination_by structural a => a

/-- Lists of elements, item by item. -/
def decEqAll : (as bs : List StyleElement) → Decidable (as = bs)
  | [], [] => isTrue rfl
  | [], _ :: _ => isFalse (by simp)
  | _ :: _, [] => isFalse (by simp)
  | a :: as, b :: bs =>
    match decEq a b with
    | isFalse h => isFalse fun e => h (by injection e)
    | isTrue h =>
      match decEqAll as bs with
      | isTrue hs => isTrue (by rw [h, hs])
      | isFalse hs => isFalse fun e => hs (by injection e)
termination_by structural as => as

end

instance : DecidableEq StyleElement := decEq

end StyleElement

/-- What an element is built from: an element built before, or a style object. -/
inductive StyleInput where
  /-- Compose this element. -/
  | element (e : StyleElement)
  /-- Compile this style object. -/
  | raw (o : StyleObject)

namespace StyleInput

/-- The elements among the inputs, in order. -/
def elements (inputs : List StyleInput) : List StyleElement :=
  inputs.filterMap fun
    | .element e => some e
    | .raw _ => none

/-- The style objects among the inputs, in order. -/
def objects (inputs : List StyleInput) : List StyleObject :=
  inputs.filterMap fun
    | .raw o => some o
    | .element _ => none

end StyleInput

end ScopedCss
