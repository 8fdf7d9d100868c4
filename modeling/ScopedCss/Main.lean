import ScopedCss.CommandLine.Run

/-!
# The program

The outermost layer: it takes the command line, reads the files that are named there, and prints
what comes of it. Reports go to the standard output, remarks, the log and failures to the standard
error.
-/

namespace ScopedCss.CommandLine

/-- The text that is shown when help is asked for. -/
def helpText : String :=
  String.join (List.map line
    ["Compiles style objects into deduplicated style sheet rules",
      "",
      "Usage: scopedcss [OPTIONS] <COMMAND>",
      "",
      "Commands:",
      "  compile <FILES>...                   Print class names and rules",
      "  sheet <FILES>... [--globals <FILE>]  Print one deduplicated style sheet",
      "  hash <TEXT>                          Print the class-name hash of a text",
      "  help                                 Print this message",
      "",
      "Options:",
      "  -v, --verbose          Show more of the log",
      "      --format <FORMAT>  text or json",
      "      --config <FILE>    TOML file with registry settings",
      "  -h, --help             Print this message",
      "  -V, --version          Print the version"])

/-- What is said about a command line that is not understood. -/
def UsageError.message : UsageError → String
  | .help | .nothing => helpText
  | .version => "scopedcss 0.1.0\n"
  | .missingCommand => "error: a command is required\n"
  | .unknownCommand => "error: there is no such command\n"
  | .missingArgument => "error: the command lacks an argument\n"
  | .unknownArgument => "error: an argument is not known\n"
  | .invalidValue => "error: a value is missing or not allowed\n"
  | .unwantedValue => "error: a value is given to an option that takes none\n"
  | .repeatedOption => "error: an option is given twice\n"

/-- The lines that describe a failure. -/
def Failure.describe (f : Failure) : String :=
  match f.messages with
  | [] => ""
  | [message] => line ("Error: " ++ message)
  | [message, cause] => line ("Error: " ++ message ++ "\n\nCaused by:\n    " ++ cause)
  | message :: causes =>
    line ("Error: " ++ message ++ "\n\nCaused by:") ++
      String.join (causes.mapIdx fun i cause => line ("    " ++ toString i ++ ": " ++ cause))

/-- A line of the log. -/
def noticeLine (n : Notice) : String :=
  line (n.level.name ++ " " ++ n.message ++
    String.join (n.fields.map fun f => " " ++ f.1 ++ "=" ++ f.2))

/-- Whether a notice is shown. -/
def isShown (verbose : Bool) (n : Notice) : Bool :=
  match n.level with
  | .warn => true
  | .debug => verbose
  | .trace => false

/-- Reads a file as a text. -/
def readTextFile (path : String) : IO (Except FileError String) := do
  try
    let bytes ← IO.FS.readBinFile path
    match String.fromUTF8? bytes with
    | some text => return .ok text
    | none => return .error .notText
  catch
    | .noFileOrDirectory .. => return .error .missing
    | e => return .error (.other (toString e))

end ScopedCss.CommandLine

open ScopedCss.CommandLine in
/-- Runs the program. -/
def main (args : List String) : IO UInt32 := do
  match Invocation.ofArguments args with
  | .error e =>
    match e with
    | .help | .version =>
      IO.print e.message
      return 0
    | _ =>
      IO.eprint e.message
      return 2
  | .ok i =>
    let read ← i.paths.mapM fun path => do return (path, ← readTextFile path)
    let (result, log) := i.run fun path => (read.lookup path).getD (.error .missing)
    for n in log.filter (isShown i.verbose) do
      IO.eprint (noticeLine n)
    match result with
    | .ok report =>
      IO.print report.output
      IO.eprint report.remarks
      return 0
    | .error f =>
      IO.eprint f.describe
      return 1
