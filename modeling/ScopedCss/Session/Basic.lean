import ScopedCss.Session.Desk
import ScopedCss.Sink.Calling

/-!
# Sessions

A session ties a compiler and a registry together: styles are built, inserted, and kept inserted by
guards. What a client does is given as actions, and `Session.run` plays a history of them. Two
actions nest: `within` runs others inside a function that reads the sink, and `reenter` runs
another one inside the source of the inputs of a build. A sink may act as well each time it is
asked to take a rule or to give one up.

Whatever comes in from below finds the registry or the compiler in use (`Busy`). Calls that need
them fail and change neither the live classes nor the held rules; guards that end meanwhile leave
behind what they stand for.
-/

namespace ScopedCss

/-- What a client of a session can do. Elements and guards go by their numbers. -/
inductive SessionAction where
  /-- Builds an element and keeps it, without inserting it. -/
  | style (inputs : List SessionInput)
  /-- Builds an element and inserts it, for as long as the guard lives. -/
  | use (inputs : List SessionInput)
  /-- Inserts an element built before, for as long as the guard lives. -/
  | useElement (n : Nat)
  /-- Inserts a global rule, for as long as the guard lives. -/
  | inject (selector : String) (block : Except InputFault Declarations)
  /-- Releases a style guard, and then lets it go. -/
  | release (n : Nat)
  /-- Lets a style guard go. -/
  | drop (n : Nat)
  /-- Lets a global guard go. -/
  | dropGlobal (n : Nat)
  /-- Reads the sink. -/
  | readSink
  /-- Shows the session. -/
  | describe
  /-- Asks how many classes are live and tries the calls that need the registry. -/
  | observe
  /-- Closes the session. -/
  | close
  /-- Does something inside a function that reads the sink. -/
  | within (actions : List SessionAction)
  /-- Builds an element, and inserts it if `use`; the source of the inputs does something first. -/
  | reenter (use : Bool) (inputs : List SessionInput) (inner : SessionAction)

instance : Inhabited SessionAction := ⟨.describe⟩

/-- A desk and a registry. -/
structure Session (σ : Type) where
  /-- What can be reached while the registry is in use. -/
  desk : Desk
  /-- The live classes. -/
  registry : Registry σ

/-- What comes of an action. -/
inductive SessionOutcome (σ : Type) where
  /-- An element was built and has the given number. -/
  | styled (n : Nat) (e : StyleElement)
  /-- An element was inserted, and its guard has the given number. -/
  | used (n : Nat) (g : StyleGuard)
  /-- A global rule was inserted, and its guard has the given number. -/
  | injected (n : Nat) (rule : StyleRule) (g : GlobalGuard)
  /-- The call failed. -/
  | failed (e : SessionError)
  /-- The inputs were at fault, and nothing was called. -/
  | refused (fault : InputFault)
  /-- The guard has ended before, or there never was one. -/
  | spent
  /-- The session is closed. -/
  | closed
  /-- Nothing needs to be said. -/
  | done
  /-- The sink. -/
  | sink (s : σ)
  /-- A text that shows the session. -/
  | described (t : String)
  /-- The session is closed now; whether it was open before. -/
  | closing (wasOpen : Bool)
  /-- What came of the inner actions, each with the session after it. -/
  | nested (reports : List (SessionOutcome σ × Session σ))
  /-- What came of the inner action, if it was reached, and of the outer one. -/
  | reentered (inner : Option (SessionOutcome σ × Session σ)) (outer : SessionOutcome σ)

/-- The same registry over another sink. -/
def Registry.withSink {σ τ : Type} (r : Registry σ) (sink : τ) : Registry τ :=
  ⟨r.id, r.config, sink, r.entries, r.log⟩

namespace Session

variable {σ : Type}

/-- A session over a sink. -/
def new (sink : σ) (config : RegistryConfig) (hash : ContentHash) : Session σ :=
  ⟨.new hash, .new 0 config sink⟩

/-- A session over a sink, if one is given. -/
def new? (sink : Option σ) (config : RegistryConfig) (hash : ContentHash) :
    Except SessionError (Session σ) :=
  match sink with
  | some sink => .ok (new sink config hash)
  | none => .error .missingSink

/-- The number of live classes, as far as the registry can be read. -/
def liveClasses (s : Session σ) (busy : Busy) : Nat :=
  if busy.registry = .write then 0 else s.registry.entries.size

/-- How a session is shown in a diagnostic. -/
def describe (s : Session σ) (busy : Busy) : String :=
  "Purse \x7b live_class_count: " ++ toString (s.liveClasses busy) ++ " \x7d"

/-- Moves what the registry has reported to the desk. -/
def collect (desk : Desk) (r : Registry σ) : Session σ := ⟨desk.note r.log, r.clearLog⟩

/-- Why the sink cannot be read. -/
def readFault (busy : Busy) : Option SessionError :=
  if busy.registry = .write then some .registryBusy else none

variable [Sink σ]

/-! ## Calls on the registry -/

/-- Works on the registry while the sink calls back with `call` each time it is asked for something. -/
def working {α : Type} (s : Session σ) (call : Callback σ Desk)
    (f : Registry (Calling σ Desk) → α × Registry (Calling σ Desk)) : α × Session σ :=
  let (a, r) := f (s.registry.withSink ⟨s.registry.sink, s.desk, 0, call⟩)
  (a, collect r.sink.world (r.withSink r.sink.sink))

/-- Inserts an element, unless the registry is in use. -/
def tryInsert (s : Session σ) (busy : Busy) (call : Callback σ Desk) (e : StyleElement) :
    Except SessionError StyleGuard × Session σ :=
  if busy.registry = .free then
    let (answer, s) := s.working call fun r => r.insert e
    (match answer with
      | .error err => .error (.registry err)
      | .ok reg => .ok ⟨some reg, e⟩, s)
  else (.error .registryBusy, s)

/-- Inserts a global rule, unless the registry is in use. -/
def tryInsertGlobal (s : Session σ) (busy : Busy) (call : Callback σ Desk) (rule : StyleRule) :
    Except SessionError GlobalGuard × Session σ :=
  if busy.registry = .free then
    let (answer, s) := s.working call fun r => r.insertGlobal rule
    (match answer with
      | .error err => .error (.registry err)
      | .ok reg => .ok ⟨some reg⟩, s)
  else (.error .registryBusy, s)

/-- Ends a style guard, once: it gives its registration back, or loses it while the registry is in
use. -/
def finish (s : Session σ) (busy : Busy) (call : Callback σ Desk) (g : StyleGuard) :
    StyleGuard × Session σ :=
  if busy.registry = .free then s.working call g.finish
  else
    let (g, notices) := g.leak
    (g, { s with desk := s.desk.note notices })

/-- Ends a global guard, once. -/
def finishGlobal (s : Session σ) (busy : Busy) (call : Callback σ Desk) (g : GlobalGuard) :
    GlobalGuard × Session σ :=
  if busy.registry = .free then s.working call g.finish
  else
    let (g, notices) := g.leak
    (g, { s with desk := s.desk.note notices })

/-! ## Actions -/

/-- Inserts an element and keeps the guard, or the number of the failed attempt. -/
def useNow (s : Session σ) (busy : Busy) (call : Callback σ Desk) (e : StyleElement) :
    SessionOutcome σ × Session σ :=
  match s.tryInsert busy call e with
  | (.error err, s) => (.failed err, { s with desk := s.desk.keepGuard none })
  | (.ok g, s) => (.used s.desk.guards.length g, { s with desk := s.desk.keepGuard (some g) })

/-- Keeps an element that was built. -/
def styleNow (s : Session σ) (e : StyleElement) : SessionOutcome σ × Session σ :=
  (.styled s.desk.elements.length e, { s with desk := s.desk.keepElement e })

/-- Renders and inserts a global rule and keeps the guard, or the number of the failed attempt. -/
def injectNow (s : Session σ) (busy : Busy) (call : Callback σ Desk) (selector : String)
    (block : Declarations) : SessionOutcome σ × Session σ :=
  match s.desk.tryRender busy selector block with
  | (.error err, desk) => (.failed err, { s with desk := desk.keepGlobal none })
  | (.ok rule, desk) =>
    match { s with desk }.tryInsertGlobal busy call rule with
    | (.error err, s) => (.failed err, { s with desk := s.desk.keepGlobal none })
    | (.ok g, s) =>
      (.injected s.desk.globals.length rule g, { s with desk := s.desk.keepGlobal (some g) })

/-- Tries to build and insert an element, and tells what has failed. The guard is not kept. -/
def probeInsert (s : Session σ) (busy : Busy) (call : Callback σ Desk) :
    Option SessionError × Session σ :=
  match s.desk.tryBuild busy [.raw OrderedMap.empty] with
  | (.error e, desk) => (some e, { s with desk })
  | (.ok e, desk) =>
    match { s with desk }.tryInsert busy call e with
    | (.error e, s) => (some e, s)
    | (.ok g, s) => (none, (s.finish busy call g).2)

/-- Tries to render and insert a global rule, and tells what has failed. The guard is not kept. -/
def probeInsertGlobal (s : Session σ) (busy : Busy) (call : Callback σ Desk) :
    Option SessionError × Session σ :=
  match s.desk.tryRender busy "a" OrderedMap.empty with
  | (.error e, desk) => (some e, { s with desk })
  | (.ok rule, desk) =>
    match { s with desk }.tryInsertGlobal busy call rule with
    | (.error e, s) => (some e, s)
    | (.ok g, s) => (none, (s.finishGlobal busy call g).2)

/-- Asks and tries, and leaves an observation behind. -/
def observeNow (s : Session σ) (busy : Busy) (call : Callback σ Desk) : Session σ :=
  let live := s.liveClasses busy
  let (inserting, s) := s.probeInsert busy call
  let (insertingGlobal, s) := s.probeInsertGlobal busy call
  { s with
    desk := { s.desk with
      observations :=
        s.desk.observations ++ [⟨live, readFault busy, inserting, insertingGlobal⟩] } }

mutual

/-- Does what an action says, while the parts `busy` are in use. `call` is what the sink does to
the desk each time it is asked for something. -/
def stepWith (call : Busy → Session σ → Callback σ Desk) (busy : Busy) (s : Session σ) :
    SessionAction → SessionOutcome σ × Session σ
  | .style inputs =>
    if !s.desk.isOpen then (.closed, s)
    else match s.desk.resolve inputs with
      | .error fault => (.refused fault, s)
      | .ok inputs =>
        match s.desk.tryBuild busy inputs with
        | (.error e, desk) => (.failed e, { s with desk })
        | (.ok e, desk) => { s with desk }.styleNow e
  | .use inputs =>
    if !s.desk.isOpen then (.closed, s)
    else match s.desk.resolve inputs with
      | .error fault => (.refused fault, s)
      | .ok inputs =>
        match s.desk.tryBuild busy inputs with
        | (.error e, desk) => (.failed e, { s with desk := desk.keepGuard none })
        | (.ok e, desk) => { s with desk }.useNow busy (call busy s) e
  | .useElement n =>
    if !s.desk.isOpen then (.closed, s)
    else match s.desk.elements[n]? with
      | none => (.refused .noElement, s)
      | some e => s.useNow busy (call busy s) e
  | .inject selector block =>
    if !s.desk.isOpen then (.closed, s)
    else match block with
      | .error fault => (.refused fault, s)
      | .ok block => s.injectNow busy (call busy s) selector block
  | .release n =>
    match s.desk.guard? n with
    | none => (.spent, s)
    | some g =>
      let (g, s') := { s with desk := s.desk.spendGuard n }.finish busy (call busy s) g
      (.done, (s'.finish busy (call busy s) g).2)
  | .drop n =>
    match s.desk.guard? n with
    | none => (.spent, s)
    | some g => (.done, ({ s with desk := s.desk.spendGuard n }.finish busy (call busy s) g).2)
  | .dropGlobal n =>
    match s.desk.global? n with
    | none => (.spent, s)
    | some g =>
      (.done, ({ s with desk := s.desk.spendGlobal n }.finishGlobal busy (call busy s) g).2)
  | .readSink =>
    if !s.desk.isOpen then (.closed, s)
    else match readFault busy with
      | some e => (.failed e, s)
      | none => (.sink s.registry.sink, s)
  | .describe => (if s.desk.isOpen then .described (s.describe busy) else .closed, s)
  | .observe => (.done, if s.desk.isOpen then s.observeNow busy (call busy s) else s)
  | .close => (.closing s.desk.isOpen, { s with desk := { s.desk with isOpen := false } })
  | .within actions =>
    if !s.desk.isOpen then (.closed, s)
    else match readFault busy with
      | some e => (.failed e, s)
      | none =>
        let (reports, s) := runWith call { busy with registry := .read } s actions
        (.nested reports, s)
  | .reenter use inputs inner =>
    if !s.desk.isOpen then (.closed, s)
    else match s.desk.resolve inputs with
      | .error fault => (.refused fault, s)
      | .ok inputs =>
        if busy.compiler then
          (.reentered none (.failed .compilerBusy),
            if use then { s with desk := s.desk.keepGuard none } else s)
        else
          let (o, s) := stepWith call { busy with compiler := true } s inner
          let report := (o, s)
          let (e, desk) := s.desk.build inputs
          let s := { s with desk }
          let (outer, s) := if use then s.useNow busy (call busy s) e else s.styleNow e
          (.reentered (some report) outer, s)
termination_by structural a => a

/-- Does what several actions say, and reports what came of each, with the session after it. -/
def runWith (call : Busy → Session σ → Callback σ Desk) (busy : Busy) (s : Session σ) :
    List SessionAction → List (SessionOutcome σ × Session σ) × Session σ
  | [] => ([], s)
  | a :: rest =>
    let (o, s) := stepWith call busy s a
    let (reports, s') := runWith call busy s rest
    ((o, s) :: reports, s')
termination_by structural as => as

end

/-- What a sink does of its own accord when it is asked for something: the actions depend on how
often it has been asked before, on the sink, on what it is asked, and on what it finds on the desk. -/
abbrev Reaction (σ : Type) : Type := Nat → σ → SinkRequest → Desk → List SessionAction

/-- What a sink that reacts does to the desk: the registry is in use for writing meanwhile, so
nothing that it does can insert or release a rule. -/
def callback (reaction : Reaction σ) (busy : Busy) (s : Session σ) : Callback σ Desk :=
  fun asked sink request desk =>
    (runWith (fun _ _ _ _ _ d => d) { busy with registry := .write } { s with desk }
      (reaction asked sink request desk)).2.desk

/-- Does the same each time a rule is offered, and nothing when one is to be given up. -/
def onOffers (actions : List SessionAction) : Reaction σ
  | _, _, .retract _, _ => []
  | _, _, _, _ => actions

/-- Plays a history of actions, over a sink that does `onOffer` each time it is offered a rule. -/
def run (onOffer : List SessionAction) (s : Session σ) (actions : List SessionAction) :
    List (SessionOutcome σ × Session σ) × Session σ :=
  runWith (callback (onOffers onOffer)) {} s actions

end Session

end ScopedCss
