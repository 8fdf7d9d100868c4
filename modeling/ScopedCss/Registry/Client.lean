import ScopedCss.Registry.Basic

/-!
# Clients of registries

A client works with several registries and keeps the registrations it is issued, numbered in the
order of the attempts. A registration can be given back to any registry, and only once: the number
is spent then, whether or not the registry had issued it, and so is the number of a failed attempt.

`Client.run` gives the histories over which the laws of registries are stated.
-/

namespace ScopedCss

/-- What a client can do. Registries, registrations and global rules go by their numbers. -/
inductive ClientAction where
  /-- Inserts an element into a registry. -/
  | insert (registry : Nat) (element : StyleElement)
  /-- Gives a registration back to a registry. -/
  | release (registry : Nat) (registration : Nat)
  /-- Inserts a rule that belongs to no class into a registry. -/
  | insertGlobal (registry : Nat) (rule : StyleRule)
  /-- Gives the registration of a global rule back to a registry. -/
  | releaseGlobal (registry : Nat) (registration : Nat)
  /-- Operates the sink of a registry directly. -/
  | operate (registry : Nat) (operation : SinkOperation)
  deriving DecidableEq

/-- What comes of an action. -/
inductive ClientOutcome where
  /-- The element was inserted, and the registration has the given number. -/
  | inserted (number : Nat) (registration : Registration)
  /-- The global rule was inserted, and its registration has the given number. -/
  | insertedGlobal (number : Nat) (registration : GlobalRegistration)
  /-- A rule was refused. -/
  | failed (error : RegistryError)
  /-- The registration had been given back before, or there never was one. -/
  | spent
  /-- The action is done, and there is nothing to say about it. -/
  | done
  deriving DecidableEq

/-- Registries, and the registrations that have been issued by them. -/
structure Client (σ : Type) where
  /-- The registries. -/
  registries : List (Registry σ)
  /-- For every attempt to insert an element, the registration if it is still there. -/
  registrations : List (Option Registration)
  /-- For every attempt to insert a global rule, the registration if it is still there. -/
  globals : List (Option GlobalRegistration)

namespace Client

variable {σ : Type}

/-- A client of fresh registries over the given sinks. -/
def ofSinks (config : RegistryConfig) (sinks : List σ) : Client σ :=
  ⟨sinks.mapIdx fun i s => Registry.new i config s, [], []⟩

/-- Puts a registry back in its place. -/
def put (c : Client σ) (i : Nat) (r : Registry σ) : Client σ :=
  { c with registries := c.registries.set i r }

/-- What all registries have reported, and the client with empty logs. -/
def takeLog (c : Client σ) : List Notice × Client σ :=
  (c.registries.flatMap (·.log), { c with registries := c.registries.map Registry.clearLog })

variable [Sink σ]

/-- Does what an action says. A registry that does not exist does nothing. -/
def step (c : Client σ) : ClientAction → ClientOutcome × Client σ
  | .insert i e =>
    match c.registries[i]? with
    | none => (.done, c)
    | some r =>
      match r.insert e with
      | (.error err, r) =>
        (.failed err, { c.put i r with registrations := c.registrations ++ [none] })
      | (.ok reg, r) =>
        (.inserted c.registrations.length reg,
          { c.put i r with registrations := c.registrations ++ [some reg] })
  | .release i n =>
    match c.registries[i]?, c.registrations[n]? with
    | some r, some (some reg) =>
      (.done, { c.put i (r.release reg) with registrations := c.registrations.set n none })
    | _, _ => (.spent, c)
  | .insertGlobal i rule =>
    match c.registries[i]? with
    | none => (.done, c)
    | some r =>
      match r.insertGlobal rule with
      | (.error err, r) => (.failed err, { c.put i r with globals := c.globals ++ [none] })
      | (.ok reg, r) =>
        (.insertedGlobal c.globals.length reg,
          { c.put i r with globals := c.globals ++ [some reg] })
  | .releaseGlobal i n =>
    match c.registries[i]?, c.globals[n]? with
    | some r, some (some reg) =>
      (.done, { c.put i (r.releaseGlobal reg) with globals := c.globals.set n none })
    | _, _ => (.spent, c)
  | .operate i op =>
    match c.registries[i]? with
    | none => (.done, c)
    | some r => (.done, c.put i (r.operate op))

/-- The client after a history of actions. -/
def run (c : Client σ) (actions : List ClientAction) : Client σ :=
  actions.foldl (fun c a => (c.step a).2) c

end Client

end ScopedCss
