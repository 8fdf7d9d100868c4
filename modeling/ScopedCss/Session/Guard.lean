import ScopedCss.Compiler
import ScopedCss.Registry.Basic

/-!
# Guards and their errors

A session hands out guards. A style guard keeps an element inserted for as long as it lives, a
global guard a rule that belongs to no class. When a guard ends it gives its registration back, at
most once however it ends; if the registry is in use at that moment, the registration is lost and
what it stands for stays.

While a call works on the compiler or the registry, other calls can come in from below it: from the
source of the inputs, from the sink, from a function that reads the sink. `Busy` says which parts
are in use by the calls around, and a call that needs such a part fails.
-/

namespace ScopedCss

/-- How a registry is in use by calls that have not returned yet. -/
inductive RegistryUse where
  /-- Not at all. -/
  | free
  /-- For reading: others may read it too. -/
  | read
  /-- For writing: nobody else may come near it. -/
  | write
  deriving DecidableEq

/-- Which parts of a session are in use by calls that have not returned yet. -/
structure Busy where
  /-- Whether the compiler is in use. -/
  compiler : Bool := false
  /-- How the registry is in use. -/
  registry : RegistryUse := .free
  deriving DecidableEq

/-- Why a call on a session fails. -/
inductive SessionError where
  /-- A session was to be made without a sink. -/
  | missingSink
  /-- The registry is in use by a call around this one. -/
  | registryBusy
  /-- The compiler is in use by a call around this one. -/
  | compilerBusy
  /-- The registry refused. -/
  | registry (e : RegistryError)
  deriving DecidableEq

/-- The message for a failed call. -/
def SessionError.message : SessionError → String
  | .missingSink => "expected a style sink to be provided"
  | .registryBusy => "style registry is already in use by an outer call"
  | .compilerBusy => "style compiler is already in use by an outer call"
  | .registry e => "registry error: " ++ e.message

/-- The messages of the causes of a failed call, outermost first. -/
def SessionError.causes : SessionError → List String
  | .registry e => [e.message, e.cause.message]
  | _ => []

/-! ## Guards -/

/-- Keeps an element inserted. -/
structure StyleGuard where
  /-- The registration, until it has been given back or lost. -/
  registration : Option Registration
  /-- The element. -/
  element : StyleElement
  deriving DecidableEq

/-- Keeps a global rule inserted. -/
structure GlobalGuard where
  /-- The registration, until it has been given back or lost. -/
  registration : Option GlobalRegistration
  deriving DecidableEq

/-- How a truth value is shown in a diagnostic. -/
def describeBool (b : Bool) : String := if b then "true" else "false"

/-- How a style guard is shown in a diagnostic. -/
def StyleGuard.describe (g : StyleGuard) : String :=
  "StyleGuard \x7b class_name: " ++ Text.quote g.element.classList ++ ", live: " ++
    describeBool g.registration.isSome ++ " \x7d"

/-- How a global guard is shown in a diagnostic. -/
def GlobalGuard.describe (g : GlobalGuard) : String :=
  "GlobalStyleGuard \x7b live: " ++ describeBool g.registration.isSome ++ " \x7d"

/-- Gives the registration of a guard back to a registry that is not in use. A guard that has none
any more does nothing. -/
def StyleGuard.finish {σ : Type} [Sink σ] (g : StyleGuard) (r : Registry σ) :
    StyleGuard × Registry σ :=
  match g.registration with
  | none => (g, r)
  | some reg => ({ g with registration := none }, r.release reg)

/-- Ends a guard while the registry is in use: the registration is lost, with a notice. -/
def StyleGuard.leak (g : StyleGuard) : StyleGuard × List Notice :=
  match g.registration with
  | none => (g, [])
  | some _ => ({ g with registration := none }, [.stylesLeaked g.element])

/-- Gives the registration of a guard back to a registry that is not in use. -/
def GlobalGuard.finish {σ : Type} [Sink σ] (g : GlobalGuard) (r : Registry σ) :
    GlobalGuard × Registry σ :=
  match g.registration with
  | none => (g, r)
  | some reg => (⟨none⟩, r.releaseGlobal reg)

/-- Ends a guard while the registry is in use: the registration is lost, with a notice. -/
def GlobalGuard.leak (g : GlobalGuard) : GlobalGuard × List Notice :=
  match g.registration with
  | none => (g, [])
  | some reg => (⟨none⟩, [.ruleLeaked reg.rule reg.handle])

end ScopedCss
