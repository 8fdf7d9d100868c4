import ScopedCss.Session.Guard
import ScopedCss.Style.Decode

/-!
# What a session keeps besides its registry

A session is a compiler, a registry and what has been handed out so far: elements and guards, which
are numbered in the order in which they were made. An attempt to make a guard takes a number even
if it fails, and a guard that has ended leaves its number spent. All of this but the registry is
the desk: it can be reached while the registry is in use.

The session itself can be closed before its guards end. Closing it changes nothing else; guards
that are left end as usual.
-/

namespace ScopedCss

/-- What is wrong with the inputs of a call before it begins. -/
inductive InputFault where
  /-- There is no element with the number. -/
  | noElement
  /-- A text is no style object. -/
  | object (e : StyleObject.Invalid)
  /-- A text is no block of declarations. -/
  | block (e : Json.Error)

/-- An input to the building of an element: the number of an element, or a style object as far as
it could be decoded. -/
inductive SessionInput where
  /-- The element with the number. -/
  | built (n : Nat)
  /-- A style object, or why there is none. -/
  | object (o : Except InputFault StyleObject)

/-- What a sink learns when it asks its session while it is being handed a rule: how many classes
are live, and what comes of reading the sink, inserting an element and inserting a global rule. -/
structure Observation where
  /-- The number of live classes. -/
  liveClasses : Nat
  /-- Why the sink cannot be read. -/
  reading : Option SessionError
  /-- Why no element can be inserted. -/
  inserting : Option SessionError
  /-- Why no global rule can be inserted. -/
  insertingGlobal : Option SessionError

/-- What a session keeps besides its registry. -/
structure Desk where
  /-- The compiler. -/
  compiler : Compiler
  /-- Whether the session has not been closed. -/
  isOpen : Bool
  /-- The elements built so far. -/
  elements : List StyleElement
  /-- For every attempt to make a style guard, the guard if it is still there. -/
  guards : List (Option StyleGuard)
  /-- For every attempt to make a global guard, the guard if it is still there. -/
  globals : List (Option GlobalGuard)
  /-- What a sink has learnt by asking. -/
  observations : List Observation
  /-- What has been reported, first to last. -/
  log : List Notice

namespace Desk

/-- The desk of a new session. -/
def new (hash : ContentHash) : Desk := ⟨.ofHash hash, true, [], [], [], [], []⟩

/-- Reports something. -/
def note (d : Desk) (ns : List Notice) : Desk := { d with log := d.log ++ ns }

/-- Looks up the elements among the inputs. The first fault counts. -/
def resolve (d : Desk) : List SessionInput → Except InputFault (List StyleInput)
  | [] => .ok []
  | .built n :: rest =>
    match d.elements[n]? with
    | none => .error .noElement
    | some e => do return .element e :: (← resolve d rest)
  | .object o :: rest => do
    let o ← o
    return .raw o :: (← resolve d rest)

/-- Builds an element. -/
def build (d : Desk) (inputs : List StyleInput) : StyleElement × Desk :=
  let (e, compiler) := d.compiler.build inputs
  (e, { d with compiler }.note (Notice.ofBuild e))

/-- Builds an element, unless the compiler is in use. -/
def tryBuild (d : Desk) (busy : Busy) (inputs : List StyleInput) :
    Except SessionError StyleElement × Desk :=
  if busy.compiler then (.error .compilerBusy, d)
  else
    let (e, d) := d.build inputs
    (.ok e, d)

/-- Renders a global rule, unless the compiler is in use. -/
def tryRender (d : Desk) (busy : Busy) (selector : String) (block : Declarations) :
    Except SessionError StyleRule × Desk :=
  if busy.compiler then (.error .compilerBusy, d)
  else
    let (rule, compiler) := d.compiler.renderGlobal selector block
    (.ok rule, { d with compiler })

/-- Keeps an element. -/
def keepElement (d : Desk) (e : StyleElement) : Desk := { d with elements := d.elements ++ [e] }

/-- Keeps a style guard, or the number of a failed attempt. -/
def keepGuard (d : Desk) (g : Option StyleGuard) : Desk := { d with guards := d.guards ++ [g] }

/-- Keeps a global guard, or the number of a failed attempt. -/
def keepGlobal (d : Desk) (g : Option GlobalGuard) : Desk := { d with globals := d.globals ++ [g] }

/-- The guard with a number, if it is still there. -/
def guard? (d : Desk) (n : Nat) : Option StyleGuard := d.guards[n]?.join

/-- The global guard with a number, if it is still there. -/
def global? (d : Desk) (n : Nat) : Option GlobalGuard := d.globals[n]?.join

/-- Takes a style guard away from its number. -/
def spendGuard (d : Desk) (n : Nat) : Desk := { d with guards := d.guards.set n none }

/-- Takes a global guard away from its number. -/
def spendGlobal (d : Desk) (n : Nat) : Desk := { d with globals := d.globals.set n none }

end Desk

end ScopedCss
