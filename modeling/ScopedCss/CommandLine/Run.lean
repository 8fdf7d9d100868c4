import ScopedCss.CommandLine.Arguments
import ScopedCss.Compiler
import ScopedCss.Registry.Settings
import ScopedCss.Sink.Sheet
import ScopedCss.Style.Decode

/-!
# Commands

What the commands do, as functions of the files that they are given. A command either fails, and
then nothing is printed, or it prints a report; in both cases it leaves a log.

The sheet command works in three steps: it compiles the files, inserts the elements and the global
rules into a registry over a style sheet, and describes what the sheet then holds. Since the
registry shares classes, files with equal content contribute once. At the end everything that was
inserted is released again.
-/

namespace ScopedCss.CommandLine

/-! ## Files and failures -/

/-- Why a file cannot be read. -/
inductive FileError where
  /-- There is no such file. -/
  | missing
  /-- It is not a text. -/
  | notText
  /-- The system gives another reason. -/
  | other (reason : String)
  deriving DecidableEq

/-- The message for a file that cannot be read. -/
def FileError.message : FileError → String
  | .missing => "No such file or directory (os error 2)"
  | .notText => "stream did not contain valid UTF-8"
  | .other reason => reason

/-- The texts of files, by path. -/
abbrev Files := String → Except FileError String

/-- Why a command fails. -/
inductive Failure where
  /-- The file with the settings cannot be read. -/
  | unreadableConfig (path : String) (e : FileError)
  /-- The file with the settings holds none. -/
  | invalidConfig (path : String)
  /-- A file cannot be read. -/
  | unreadable (path : String) (e : FileError)
  /-- A file holds no style object. -/
  | invalid (path : String) (e : StyleObject.Invalid)
  /-- A rule of the class of a file is refused. -/
  | rejected (path : String) (e : RegistryError)
  /-- A global rule is refused. -/
  | rejectedGlobal (e : RegistryError)

/-- The messages for a failure, from the outermost to the innermost cause. -/
def Failure.messages : Failure → List String
  | .unreadableConfig path e => ["reading config " ++ path, e.message]
  | .invalidConfig path => ["parsing config " ++ path, "invalid settings"]
  | .unreadable path e => ["reading " ++ path, e.message]
  | .invalid path e => ["parsing " ++ path, e.message]
  | .rejected path e => ["inserting " ++ path, e.message, e.cause.message]
  | .rejectedGlobal e => [e.message, e.cause.message]

/-- Loads the settings, if a file with some is named. Where no mode is set, it is that of the debug
profile. -/
def loadConfig (files : Files) : Option String → Except Failure RegistryConfig
  | none => .ok {}
  | some path =>
    match files path with
    | .error e => .error (.unreadableConfig path e)
    | .ok text =>
      match Toml.read text with
      | none => .error (.invalidConfig path)
      | some members =>
        match Pairs.get? "registry" members with
        | none => .ok {}
        | some v =>
          match RegistryConfig.ofToml v with
          | some config => .ok config
          | none => .error (.invalidConfig path)

/-- Loads a style object. -/
def loadObject (files : Files) (path : String) : Except Failure StyleObject :=
  match files path with
  | .error e => .error (.unreadable path e)
  | .ok text => (StyleObject.parse text).mapError (.invalid path)

/-! ## Compiling files -/

/-- A file with the element it was compiled to. -/
structure CompiledFile where
  /-- The path of the file. -/
  path : String
  /-- The element. -/
  element : StyleElement
  deriving DecidableEq

/-- What is reported about the compilation of a file. -/
def CompiledFile.notices (f : CompiledFile) : List Notice :=
  Notice.ofBuild f.element ++ [.fileCompiled f.path f.element]

/-- Compiles files in their order, up to one that cannot be loaded. The files that were compiled
are returned in any case. -/
def compileFiles (files : Files) (c : Compiler) :
    List String → Option Failure × List CompiledFile × Compiler
  | [] => (none, [], c)
  | path :: paths =>
    match loadObject files path with
    | .error failure => (some failure, [], c)
    | .ok o =>
      let (e, c) := c.build [.raw o]
      let (failure, compiled, c) := compileFiles files c paths
      (failure, ⟨path, e⟩ :: compiled, c)

/-! ## Filling a sheet -/

/-- Inserts the elements of compiled files in their order. -/
def insertFiles (r : Registry SheetSink) :
    List CompiledFile → Except Failure (List Registration) × Registry SheetSink
  | [] => (.ok [], r)
  | f :: fs =>
    match r.insert f.element with
    | (.error e, r) => (.error (.rejected f.path e), r)
    | (.ok registration, r) =>
      let (rest, r) := insertFiles r fs
      (rest.map (registration :: ·), r)

/-- Inserts the blocks among some entries as global rules; other entries are left out, with a
notice. -/
def insertGlobals (c : Compiler) (r : Registry SheetSink) :
    List (String × StyleEntry) → Except Failure (List GlobalRegistration) × Registry SheetSink
  | [] => (.ok [], r)
  | (selector, .value _) :: rest => insertGlobals c (r.note (.entrySkipped selector)) rest
  | (selector, .nested block) :: rest =>
    let (rule, c) := c.renderGlobal selector block
    match r.insertGlobal rule with
    | (.error e, r) => (.error (.rejectedGlobal e), r)
    | (.ok registration, r) =>
      let (rest, r) := insertGlobals c r rest
      (rest.map (registration :: ·), r)

/-- The entries of the file with the global rules, if one is named. -/
def loadGlobals (files : Files) : Option String → Except Failure (List (String × StyleEntry))
  | none => .ok []
  | some path => do return (← loadObject files path).toList

/-- A registry with what has been inserted into it. -/
structure FilledSheet where
  /-- The registry. -/
  registry : Registry SheetSink
  /-- The registrations of the files. -/
  registrations : List Registration
  /-- The registrations of the global rules. -/
  globals : List GlobalRegistration

/-- Fills a sheet with compiled files and with the global rules in a file. `r` is the registry to
begin with. -/
def fillSheet (files : Files) (c : Compiler) (r : Registry SheetSink) (compiled : List CompiledFile)
    (globals : Option String) : Except (Failure × Registry SheetSink) FilledSheet :=
  match insertFiles r compiled with
  | (.error failure, r) => .error (failure, r)
  | (.ok registrations, r) =>
    match loadGlobals files globals with
    | .error failure => .error (failure, r)
    | .ok entries =>
      match insertGlobals c r entries with
      | (.error failure, r) => .error (failure, r)
      | (.ok globals, r) => .ok ⟨r, registrations, globals⟩

/-- Releases everything in the order in which it was inserted, files before global rules. -/
def FilledSheet.releaseAll (s : FilledSheet) : Registry SheetSink :=
  s.globals.foldl Registry.releaseGlobal (s.registrations.foldl Registry.release s.registry)

/-- The style sheet. -/
def FilledSheet.css (s : FilledSheet) : String := s.registry.sink.toCss

/-! ## Reports -/

/-- What a command prints. -/
structure Report where
  /-- The result. -/
  output : String
  /-- Remarks on the result. -/
  remarks : String := ""
  deriving DecidableEq

/-- A text on a line of its own. -/
def line (s : String) : String := s ++ "\n"

/-- One rule for each item. -/
def rulesJson (rules : List StyleRule) : Json := .array (rules.map fun r => .string r.text)

/-- A compiled file as a JSON document. -/
def CompiledFile.toJson (f : CompiledFile) : Json :=
  .object [("file", .string f.path), ("className", .string f.element.classList),
    ("rules", rulesJson f.element.flattenRules)]

/-- A compiled file for people to read: its class name, and its rules below. -/
def CompiledFile.toText (f : CompiledFile) : String :=
  let name := if f.element.isEmpty then "(empty)" else f.element.classList
  line (f.path ++ " " ++ name) ++
    String.join (f.element.flattenRules.map fun r => line ("  " ++ r.text))

/-- The report on compiled files. -/
def compileReport (format : OutputFormat) (compiled : List CompiledFile) : Report :=
  match format with
  | .json => { output := line (Json.array (compiled.map CompiledFile.toJson)).writeSpread }
  | .text => { output := String.join (compiled.map CompiledFile.toText) }

/-- The report on a sheet. -/
def sheetReport (format : OutputFormat) (compiled : List CompiledFile) (s : FilledSheet) : Report :=
  let live := s.registry.entries.size
  match format with
  | .json =>
    { output := line (Json.object
        [("classes", .array (compiled.map fun f => .string f.element.classList)),
          ("liveClassNames", .number (.integer live)), ("css", .string s.css)]).writeSpread }
  | .text =>
    { output := s.css
      remarks := line ("✓ " ++ toString s.registry.sink.size ++ " rules from " ++
        toString compiled.length ++ " files (" ++ toString live ++ " class names)") }

/-- The report on the hash of a text. -/
def hashReport (format : OutputFormat) (text : String) : Report :=
  let code := (ContentHash.standard.ofText text).toNat
  let name := (ContentHash.standard.identifier text).text
  match format with
  | .json =>
    { output := line (Json.object
        [("hash", .number (.integer code)), ("className", .string name)]).write }
  | .text => { output := line (name ++ " " ++ toString code) }

/-! ## Running -/

/-- The paths of the files that an invocation may read. -/
def Invocation.paths (i : Invocation) : List String :=
  i.config.toList ++ match i.command with
    | .compile paths => paths
    | .sheet paths globals => paths ++ globals.toList
    | .hash _ => []

/-- Compiles files and reports on them. -/
def runCompile (files : Files) (format : OutputFormat) (paths : List String) :
    Except Failure Report × List Notice :=
  let (failure, compiled, _) := compileFiles files .new paths
  (match failure with
    | some failure => .error failure
    | none => .ok (compileReport format compiled),
    compiled.flatMap CompiledFile.notices)

/-- Compiles files into one sheet and reports on it. -/
def runSheet (files : Files) (config : RegistryConfig) (format : OutputFormat)
    (paths : List String) (globals : Option String) : Except Failure Report × List Notice :=
  let (failure, compiled, c) := compileFiles files .new paths
  let log := compiled.flatMap CompiledFile.notices
  match failure with
  | some failure => (.error failure, log)
  | none =>
    match fillSheet files c (Registry.new 0 config SheetSink.empty) compiled globals with
    | .error (failure, r) => (.error failure, log ++ r.log)
    | .ok s => (.ok (sheetReport format compiled s), log ++ s.releaseAll.log)

/-- Does what an invocation asks for. The settings are loaded first, even where they are not
used. -/
def Invocation.run (files : Files) (i : Invocation) : Except Failure Report × List Notice :=
  match loadConfig files i.config with
  | .error failure => (.error failure, [])
  | .ok config =>
    match i.command with
    | .compile paths => runCompile files i.format paths
    | .sheet paths globals => runSheet files config i.format paths globals
    | .hash text => (.ok (hashReport i.format text), [])

end ScopedCss.CommandLine
