import ScopedCss.Log
import ScopedCss.OrderedMap

/-!
# The registry of live classes

A registry stands between style elements and a sink. It counts the references to each class, so
that however often a class is registered, the sink takes its rules once, when the first reference
comes, and gives them up once, when the last one goes. A class is live while it has an entry, and
an entry has at least one reference.

The tree of an element is walked children first, both on insertion and on release, and a class is
counted once for every path that leads to it. An insertion that fails in strict mode undoes what
it has done so far: the handles of the fragment at hand are given back in order, then the siblings
that stood before it in each node on the way up are released, last one first.

Every operation returns the registry it leaves behind. Nothing is thrown: an insertion answers with
a registration or an error, and the registry after a failed one is as it was, except that handle
numbers may have been used up and notices left in the log.
-/

namespace ScopedCss

/-! ## Configuration -/

/-- What happens when the sink refuses a rule. -/
inductive InsertionMode where
  /-- The insertion fails and is undone. -/
  | strict
  /-- The rule is left out, with a notice. -/
  | relaxed
  deriving DecidableEq

/-- The name of a mode in a configuration file. -/
def InsertionMode.name : InsertionMode → String
  | .strict => "strict"
  | .relaxed => "relaxed"

/-- How a mode is shown in a diagnostic. -/
def InsertionMode.describe : InsertionMode → String
  | .strict => "Strict"
  | .relaxed => "Relaxed"

/-- The settings of a registry. -/
structure RegistryConfig where
  /-- What happens when the sink refuses a rule. The default is that of the debug profile, `strict`;
  built for release the program has `relaxed` for a default, and is otherwise the same. -/
  mode : InsertionMode := .strict
  deriving DecidableEq

instance : Inhabited RegistryConfig := ⟨{}⟩

/-- Whether insertions fail when the sink refuses a rule. -/
def RegistryConfig.isStrict (c : RegistryConfig) : Bool := c.mode = .strict

/-! ## The state -/

/-- What is known about a live class. -/
structure RegistryEntry where
  /-- The number of references. The program counts them in a machine word; it would take 2^64
  insertions of one class, none of them released, for that to run over. -/
  count : Nat
  /-- The handles of the rules that the sink has taken for the class, in order. -/
  handles : List Handle
  deriving DecidableEq

/-- An insertion failed because the sink refused a rule. -/
structure RegistryError where
  /-- The refused rule. -/
  rule : StyleRule
  /-- What the sink said. -/
  cause : SinkError
  deriving DecidableEq

/-- The message for a failed insertion. -/
def RegistryError.message (e : RegistryError) : String := "could not add style rule " ++ e.rule.text

/-- The proof of a successful insertion, to be given back once. -/
structure Registration where
  /-- The identity of the registry that issued it. -/
  registry : Nat
  /-- The element that was inserted. -/
  element : StyleElement
  deriving DecidableEq

/-- The proof of the insertion of a rule that belongs to no class, to be given back once. -/
structure GlobalRegistration where
  /-- The identity of the registry that issued it. -/
  registry : Nat
  /-- The rule that was inserted. -/
  rule : StyleRule
  /-- The handle of the rule, unless the sink refused it. -/
  handle : Option Handle
  deriving DecidableEq

/-- A sink, and the classes that are live in it. -/
structure Registry (σ : Type) where
  /-- The identity, which tells the registrations of this registry from those of others. -/
  id : Nat
  /-- The settings. -/
  config : RegistryConfig
  /-- Where the rules go. -/
  sink : σ
  /-- The live classes. -/
  entries : OrderedMap ClassName RegistryEntry
  /-- What has been reported, first to last. -/
  log : List Notice

namespace Registry

variable {σ : Type}

/-- A registry in which no class is live. -/
def new (id : Nat) (config : RegistryConfig) (sink : σ) : Registry σ :=
  ⟨id, config, sink, OrderedMap.empty, []⟩

/-- The number of references to a class. -/
def refCount (r : Registry σ) (n : ClassName) : Nat := ((r.entries.get? n).map (·.count)).getD 0

/-- Whether a class is live. -/
def contains (r : Registry σ) (n : ClassName) : Bool := r.entries.contains n

/-- Reports something. -/
def note (r : Registry σ) (n : Notice) : Registry σ := { r with log := r.log ++ [n] }

/-- Drops what has been reported. -/
def clearLog (r : Registry σ) : Registry σ := { r with log := [] }

/-- How the registry is shown in a diagnostic. Its identity means nothing outside the process and
is not shown. -/
def describe (r : Registry σ) : String :=
  "StyleRegistry \x7b id: _, mode: " ++ r.config.mode.describe ++ ", entry_count: " ++
    toString r.entries.size ++ " \x7d"

variable [Sink σ]

/-! ## Classes -/

/-- Hands the rules of a class to the sink, after those whose handles are given. A refusal ends
this in strict mode, and the handles are given back; in relaxed mode the rule is left out. -/
def addRules (r : Registry σ) (taken : List Handle) :
    List StyleRule → Except RegistryError (List Handle) × Registry σ
  | [] => (.ok taken, r)
  | rule :: rules =>
    match Sink.add r.sink rule with
    | (.ok h, s) => addRules { r with sink := s } (taken ++ [h]) rules
    | (.error e, s) =>
      match r.config.mode with
      | .strict => (.error ⟨rule, e⟩, { r with sink := Sink.retractAll s taken })
      | .relaxed => addRules ({ r with sink := s }.note (.ruleSkipped rule e)) taken rules

/-- Counts one more reference to the class of a fragment; the first one brings its rules to the
sink. -/
def acquire (r : Registry σ) (f : Fragment) : Except RegistryError Unit × Registry σ :=
  match r.entries.get? f.className with
  | some e =>
    (.ok (), { r with entries := r.entries.set f.className { e with count := e.count + 1 } })
  | none =>
    match r.addRules [] f.rules with
    | (.error e, r) => (.error e, r)
    | (.ok handles, r) =>
      let r := r.note (.inserted f.className handles.length)
      (.ok (), { r with entries := r.entries.set f.className ⟨1, handles⟩ })

/-- Counts one reference less to a class; the last one takes its rules from the sink. -/
def relinquish (r : Registry σ) (n : ClassName) : Registry σ :=
  match r.entries.get? n with
  | none => r
  | some e =>
    if 0 < e.count - 1 then
      { r with entries := r.entries.set n { e with count := e.count - 1 } }
    else
      let r := r.note (.retracted n e.handles.length)
      { r with
        entries := r.entries.erase n
        sink := Sink.retractAll r.sink e.handles }

/-! ## Elements -/

mutual

/-- Counts one reference less to every class of a tree, children first. -/
def removeElement (r : Registry σ) : StyleElement → Registry σ
  | .node cs owned =>
    let r := removeAll r cs
    match owned with
    | none => r
    | some f => r.relinquish f.className
termination_by structural e => e

/-- Removes several trees, first to last. -/
def removeAll (r : Registry σ) : List StyleElement → Registry σ
  | [] => r
  | e :: es => removeAll (removeElement r e) es
termination_by structural es => es

end

mutual

/-- Counts one more reference to every class of a tree, children first. If a rule is refused in
strict mode, what was counted before is removed again. -/
def insertElement (r : Registry σ) : StyleElement → Except RegistryError Unit × Registry σ
  | .node cs owned =>
    match insertAll r [] cs with
    | (.error e, r) => (.error e, r)
    | (.ok (), r) =>
      match owned with
      | none => (.ok (), r)
      | some f =>
        match r.acquire f with
        | (.error e, r) => (.error e, r.removeAll cs.reverse)
        | (.ok (), r) => (.ok (), r)
termination_by structural e => e

/-- Inserts several trees, first to last, after those in `done`, the last one of which stands
first. If one fails, those before it are removed, last one first. -/
def insertAll (r : Registry σ) (done : List StyleElement) :
    List StyleElement → Except RegistryError Unit × Registry σ
  | [] => (.ok (), r)
  | e :: es =>
    match insertElement r e with
    | (.error err, r) => (.error err, r.removeAll done)
    | (.ok (), r) => insertAll r (e :: done) es
termination_by structural es => es

end

/-- Inserts an element and everything it is composed of. -/
def insert (r : Registry σ) (e : StyleElement) : Except RegistryError Registration × Registry σ :=
  match r.insertElement e with
  | (.error err, r) => (.error err, r)
  | (.ok (), r) => (.ok ⟨r.id, e⟩, r)

/-- Takes a registration back. One that another registry issued is ignored, with a notice. -/
def release (r : Registry σ) (reg : Registration) : Registry σ :=
  if reg.registry = r.id then r.removeElement reg.element
  else r.note (.foreignRegistration reg.element)

/-! ## Rules without a class -/

/-- Inserts a rule that belongs to no class. Such rules are not shared: a rule that is inserted
twice is held twice. -/
def insertGlobal (r : Registry σ) (rule : StyleRule) :
    Except RegistryError GlobalRegistration × Registry σ :=
  match Sink.addGlobal r.sink rule with
  | (.ok h, s) => (.ok ⟨r.id, rule, some h⟩, { r with sink := s })
  | (.error e, s) =>
    match r.config.mode with
    | .strict => (.error ⟨rule, e⟩, { r with sink := s })
    | .relaxed =>
      (.ok ⟨r.id, rule, none⟩, { r with sink := s }.note (.globalSkipped rule e))

/-- Takes the registration of a global rule back. One that another registry issued is ignored, with
a notice. -/
def releaseGlobal (r : Registry σ) (reg : GlobalRegistration) : Registry σ :=
  if reg.registry = r.id then
    match reg.handle with
    | some h => { r with sink := Sink.retract r.sink h }
    | none => r
  else r.note (.foreignGlobal reg.rule)

/-- What the owner of the sink does to it behind the registry's back. -/
def operate (r : Registry σ) (op : SinkOperation) : Registry σ :=
  { r with sink := Sink.operate op r.sink }

end Registry

end ScopedCss
