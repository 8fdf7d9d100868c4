/-!
# Command lines

A command line consists of options that every command knows, the name of a command, and the
arguments of that command. Options may stand before or behind the name; the two places are read as
levels of their own, and where both give the same option, the one behind the name counts.

A level is read word by word. A word that begins with a dash is an option, one that follows an
option which wants a value is that value, and any other word is an argument of the command. The
last value read stays pending until the next option or argument is understood, and it is checked
only then: so a word that is not understood is reported before a bad value in front of it.
-/

namespace ScopedCss.CommandLine

/-- How results are printed. -/
inductive OutputFormat where
  /-- Lines for people to read. -/
  | text
  /-- JSON. -/
  | json
  deriving DecidableEq

/-- The format with a name. -/
def OutputFormat.ofName? : String → Option OutputFormat
  | "text" => some .text
  | "json" => some .json
  | _ => none

/-- What the program is asked to do. -/
inductive Command where
  /-- Compiles each file and prints its class name and rules. -/
  | compile (files : List String)
  /-- Compiles the files into one sheet, together with the global rules in another file. -/
  | sheet (files : List String) (globals : Option String)
  /-- Prints the hash of a text. -/
  | hash (text : String)
  deriving DecidableEq

/-- A command with the options that every command knows. -/
structure Invocation where
  /-- Whether the log shows more than warnings. -/
  verbose : Bool
  /-- How results are printed. -/
  format : OutputFormat
  /-- The path of the settings. -/
  config : Option String
  /-- What to do. -/
  command : Command
  deriving DecidableEq

/-- Why there is no invocation in a command line. -/
inductive UsageError where
  /-- Help was asked for. -/
  | help
  /-- The version was asked for. -/
  | version
  /-- There is nothing on the command line. -/
  | nothing
  /-- There are options, but no command. -/
  | missingCommand
  /-- There is no such command. -/
  | unknownCommand
  /-- A command lacks an argument. -/
  | missingArgument
  /-- An option is not known, or an argument is one too many. -/
  | unknownArgument
  /-- The value of an option or argument is missing or not allowed. -/
  | invalidValue
  /-- A value is attached to an option that takes none. -/
  | unwantedValue
  /-- An option is given twice. -/
  | repeatedOption
  deriving DecidableEq

/-! ## Words -/

/-- The name of a command. -/
inductive CommandName where
  /-- The command `compile`. -/
  | compile
  /-- The command `sheet`. -/
  | sheet
  /-- The command `hash`. -/
  | hash
  deriving DecidableEq

/-- The command with a name. -/
def CommandName.ofWord? : String → Option CommandName
  | "compile" => some .compile
  | "sheet" => some .sheet
  | "hash" => some .hash
  | _ => none

/-- Whether a word names a command, the one that asks for help included. -/
def isCommandWord (w : String) : Bool := w = "help" || (CommandName.ofWord? w).isSome

/-- An option with a value. -/
inductive Setting where
  /-- How results are printed. -/
  | format
  /-- The path of the settings. -/
  | config
  /-- The path of the global rules. -/
  | globals
  deriving DecidableEq

/-- An option without a value. -/
inductive Flag where
  /-- Asks for a longer log. -/
  | verbose
  /-- Asks for help. -/
  | help
  /-- Asks for the version. -/
  | version
  deriving DecidableEq

/-- Where an option stands: in front of the command, or behind its name. -/
abbrev Place := Option CommandName

/-- The option with a value that has a name. -/
def Setting.ofName? (place : Place) : String → Option Setting
  | "format" => some .format
  | "config" => some .config
  | "globals" => if place = some .sheet then some .globals else none
  | _ => none

/-- The option without a value that has a name. -/
def Flag.ofName? (place : Place) : String → Option Flag
  | "verbose" => some .verbose
  | "help" => some .help
  | "version" => if place = none then some .version else none
  | _ => none

/-- The option without a value that has a letter. -/
def Flag.ofLetter? (place : Place) : Char → Option Flag
  | 'v' => some .verbose
  | 'h' => some .help
  | 'V' => if place = none then some .version else none
  | _ => none

/-- What a word looks like. -/
inductive Shape where
  /-- Two dashes, behind which no word is an option. -/
  | separator
  /-- Two dashes with the name of an option, and a value behind an equals sign. -/
  | long (name : String) (value : Option String)
  /-- A dash with letters. -/
  | letters (cs : List Char)
  /-- Any other word, a single dash included. -/
  | word

/-- The shape of a word. -/
def Shape.of (w : String) : Shape :=
  match w.toList with
  | ['-', '-'] => .separator
  | '-' :: '-' :: cs =>
    .long (String.ofList (cs.takeWhile (· ≠ '=')))
      (match cs.dropWhile (· ≠ '=') with
        | [] => none
        | _ :: value => some (String.ofList value))
  | '-' :: c :: cs => .letters (c :: cs)
  | _ => .word

/-! ## Levels -/

/-- What has been read but not yet checked. -/
inductive Pending where
  /-- An option, with its value if that has been read. -/
  | setting (s : Setting) (value : Option String)
  /-- Arguments. -/
  | arguments (ws : List String)
  deriving DecidableEq

/-- What has been read on one side of the name of the command. -/
structure Level where
  /-- Whether a longer log is asked for. -/
  verbose : Bool := false
  /-- The output format. -/
  format : Option OutputFormat := none
  /-- The path of the settings. -/
  config : Option String := none
  /-- The path of the global rules. -/
  globals : Option String := none
  /-- The arguments. -/
  arguments : List String := []
  /-- What is not checked yet. -/
  pending : Option Pending := none
  deriving DecidableEq

namespace Level

/-- Whether an option stands on the level. -/
def hasOptions (l : Level) : Bool := l.verbose || l.format.isSome || l.config.isSome

/-- Whether the next word is the value of an option. -/
def awaitsValue (l : Level) : Bool :=
  match l.pending with
  | some (.setting _ none) => true
  | _ => false

/-- A path, which must not be empty. -/
def checkPath (path : String) : Except UsageError String :=
  if path.isEmpty then .error .invalidValue else .ok path

/-- Gives an option its value, once. -/
def give (l : Level) (s : Setting) (value : String) : Except UsageError Level :=
  match s with
  | .format =>
    if l.format.isSome then .error .repeatedOption
    else match OutputFormat.ofName? value with
      | some f => .ok { l with format := some f }
      | none => .error .invalidValue
  | .config =>
    if l.config.isSome then .error .repeatedOption
    else do return { l with config := some (← checkPath value) }
  | .globals =>
    if l.globals.isSome then .error .repeatedOption
    else do return { l with globals := some (← checkPath value) }

/-- Checks what is pending. The arguments of every command but `hash` are paths. -/
def settle (place : Place) (l : Level) : Except UsageError Level :=
  let settled := { l with pending := none }
  match l.pending with
  | none => .ok settled
  | some (.setting _ none) => .error .invalidValue
  | some (.setting s (some value)) => settled.give s value
  | some (.arguments ws) => do
    let ws ← if place = some .hash then .ok ws else ws.mapM checkPath
    return { settled with arguments := l.arguments ++ ws }

/-- Reads an option without a value. -/
def raise (place : Place) (l : Level) (f : Flag) : Except UsageError Level := do
  let l ← l.settle place
  match f with
  | .verbose => if l.verbose then .error .repeatedOption else .ok { l with verbose := true }
  | .help => .error .help
  | .version => .error .version

/-- Reads the letters behind a dash, each of which is an option. -/
def raiseAll (place : Place) (l : Level) : List Char → Except UsageError Level
  | [] => .ok l
  | c :: cs =>
    match Flag.ofLetter? place c with
    | none => .error .unknownArgument
    | some f => do raiseAll place (← l.raise place f) cs

/-- Reads an option with a long name. -/
def readLong (place : Place) (l : Level) (name : String) (value : Option String) :
    Except UsageError Level :=
  match Setting.ofName? place name, Flag.ofName? place name, value with
  | some s, _, some v => do (← l.settle place).give s v
  | some s, _, none => do return { ← l.settle place with pending := some (.setting s none) }
  | none, some _, some _ => .error .unwantedValue
  | none, some f, none => l.raise place f
  | none, none, _ => .error .unknownArgument

/-- Reads an argument. In front of the command there are none, and `hash` takes only one;
`separated` tells whether two dashes came before. -/
def readArgument (place : Place) (separated : Bool) (l : Level) (w : String) :
    Except UsageError Level :=
  match place, l.pending with
  | none, _ => .error (if separated && isCommandWord w then .unknownArgument else .unknownCommand)
  | some .hash, some (.arguments _) => .error .unknownArgument
  | some .hash, _ =>
    if l.arguments.isEmpty then do
      return { ← l.settle place with pending := some (.arguments [w]) }
    else .error .unknownArgument
  | some _, some (.arguments ws) => .ok { l with pending := some (.arguments (ws ++ [w])) }
  | some _, _ => do return { ← l.settle place with pending := some (.arguments [w]) }

/-- Reads what behind the word `help` is the name of a command. -/
def readHelp : List String → UsageError
  | [] => .help
  | [w] => if isCommandWord w then .help else .unknownCommand
  | _ => .unknownCommand

/-- Reads a level. In front of the command it ends with the name of one, which is returned with
the words behind it. -/
def read (place : Place) : Bool → Level → List String →
    Except UsageError (Level × Option (CommandName × List String))
  | _, l, [] => .ok (l, none)
  | true, l, w :: ws => do read place true (← l.readArgument place true w) ws
  | false, l, w :: ws =>
    let named := if place = none ∧ !l.awaitsValue then CommandName.ofWord? w else none
    match named with
    | some name => .ok (l, some (name, ws))
    | none =>
      if place = none ∧ !l.awaitsValue ∧ w = "help" then .error (readHelp ws)
      else match Shape.of w, l.pending with
        | .separator, _ => read place true l ws
        | .long name value, _ => do read place false (← l.readLong place name value) ws
        | .letters cs, _ => do read place false (← l.raiseAll place cs) ws
        | .word, some (.setting s none) =>
          read place false { l with pending := some (.setting s (some w)) } ws
        | .word, _ => do read place false (← l.readArgument place false w) ws

/-- The command that a level stands for. -/
def command (l : Level) : CommandName → Except UsageError Command
  | .compile => if l.arguments.isEmpty then .error .missingArgument else .ok (.compile l.arguments)
  | .sheet =>
    if l.arguments.isEmpty then .error .missingArgument else .ok (.sheet l.arguments l.globals)
  | .hash =>
    match l.arguments with
    | [] => .error .missingArgument
    | w :: _ => .ok (.hash w)

end Level

/-- Reads a command line. What is wrong behind the name of the command is reported before what was
left to check in front of it. -/
def Invocation.ofArguments (args : List String) : Except UsageError Invocation := do
  let (front, rest) ← Level.read none false {} args
  match rest with
  | none =>
    let front ← front.settle none
    .error (if front.hasOptions then .missingCommand else .nothing)
  | some (name, ws) =>
    let (back, _) ← Level.read (some name) false {} ws
    let back ← back.settle (some name)
    let command ← back.command name
    let front ← front.settle none
    return {
      verbose := front.verbose || back.verbose
      format := (back.format.or front.format).getD .text
      config := back.config.or front.config
      command }

end ScopedCss.CommandLine
