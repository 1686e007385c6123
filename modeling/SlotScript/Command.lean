import SlotScript.Pipeline
import SlotScript.Tree.Outline
import SlotScript.Diagnostic.Terminal

/-!
# The command line

What the program does with its arguments, as a function: files are read through a parameter,
and what would be written is returned with the exit status.
-/

namespace SlotScript

/-- What reading a file gives. -/
inductive FileContent where
  /-- The bytes of the file. -/
  | bytes (data : ByteArray)
  /-- There is no such file. -/
  | missing
  /-- The file may not be read. -/
  | denied
  /-- Any other reason why it cannot be read. -/
  | unreadable (reason : String)

/-- The world that a command runs in. -/
structure Surroundings where
  /-- Reads a file. -/
  read : String → FileContent
  /-- Whether colours are forbidden. -/
  noColour : Bool := false
  /-- Whether error output goes to a terminal. -/
  terminal : Bool := false

/-- What a command writes, and its exit status. -/
structure Report where
  /-- The exit status. -/
  exit : Nat := 0
  /-- What goes to standard output. -/
  out : String := ""
  /-- What goes to standard error. -/
  err : String := ""
deriving DecidableEq, Repr

namespace Command

/-- A successful command that writes one line. -/
def say (line : String) : Report := { out := line ++ "\n" }

/-- A failed command that writes lines to standard error. -/
def complain (lines : List String) : Report :=
  { exit := 1, err := String.join (lines.map (· ++ "\n")) }

/-- How to use the program. -/
def usage : List String :=
  ["SPL interpreter",
   "",
   "Usage: splc <command> [args]",
   "",
   "Commands:",
   "  run <file>        Evaluate a file and print its value",
   "  check <file>      Lex, parse and resolve without running",
   "  ast <file>        Print the resolved syntax tree",
   "  tokens <file>     Print the token stream",
   "  explain <code>    Describe an error code",
   "  help              Show this message",
   "  version           Show the version",
   "",
   "Environment:",
   "  RUST_LOG          Enable tracing, e.g. RUST_LOG=spl_eval=trace",
   "  NO_COLOR          Disable colored diagnostics"]

/-- How to use the program, as text. -/
def usageText : String := String.join (usage.map (· ++ "\n"))

/-- The name and the version of the program. -/
def version : String := "splc 0.1.0"

/-- The text of a file, or why there is none. -/
def readSource (surroundings : Surroundings) (path : String) : Except String String :=
  match surroundings.read path with
  | .missing => .error ("cannot find file '" ++ path ++ "'")
  | .denied => .error ("permission denied reading '" ++ path ++ "'")
  | .unreadable reason => .error ("cannot read '" ++ path ++ "': " ++ reason)
  | .bytes data =>
    match String.fromUTF8? data with
    | some text => .ok text
    | none => .error ("cannot read '" ++ path ++ "': stream did not contain valid UTF-8")

/-- A diagnostic on standard error. -/
def report (surroundings : Surroundings) (source path : String) (d : Diagnostic) : Report :=
  let mode : ColourMode := if surroundings.noColour then .never else .auto
  { exit := 1
    err := d.render (mode.enabled surroundings.terminal)
      { source := some source, path := some path } }

/-- The line for one token: its span and its text. -/
def tokenLine (token : Token) : String := token.span.text ++ "\t" ++ token.kind.describe ++ "\n"

/-- The commands that read a file. -/
inductive FileCommand where
  | run | check | ast | tokens
deriving DecidableEq, Repr

/-- The command with a name. -/
def FileCommand.ofName? : String → Option FileCommand
  | "run" => some .run
  | "check" => some .check
  | "ast" => some .ast
  | "tokens" => some .tokens
  | _ => none

/-- Carries out a command on a source text that was read from `path`. -/
def FileCommand.apply (command : FileCommand) (surroundings : Surroundings)
    (path source : String) : Report :=
  let failure := report surroundings source path
  match command with
  | .run =>
    match runSource stepLimit source with
    | .value value => say value.text
    | .failure diagnostic => failure diagnostic
    | .unfinished => complain ["error: the program did not finish"]
  | .check =>
    match compile source with
    | .ok _ => say (path ++ ": no errors")
    | .error diagnostic => failure diagnostic
  | .ast =>
    match compile source with
    | .ok program => say program.outline
    | .error diagnostic => failure diagnostic
  | .tokens =>
    match tokensOf source with
    | .ok listed => { out := String.join (listed.map tokenLine) }
    | .error diagnostic => failure diagnostic

/-- Describes a code of a failure. -/
def explain (text : String) : Report :=
  match Code.ofText? text with
  | some code => say (code.text ++ ": " ++ code.description)
  | none =>
    complain ["Unknown error code: " ++ text, "",
      "Codes have the format EXXXX where X is a digit.",
      "Examples: E0001, E1003, E2001, E6001"]

/-- A command on a file. -/
def onFile (surroundings : Surroundings) (command : FileCommand) (path : String) : Report :=
  match readSource surroundings path with
  | .ok source => command.apply surroundings path source
  | .error message => complain ["error: " ++ message]

/-- Commands that read no file. -/
def plain (name : String) (args : List String) : Report :=
  match name, args with
  | "explain", [] => complain ["Usage: splc explain <error-code>"]
  | "explain", code :: _ => explain code
  | "help", _ | "--help", _ | "-h", _ => { out := usageText }
  | "version", _ | "--version", _ | "-V", _ => say version
  | _, _ => { complain ["Unknown command: " ++ name, ""] with out := usageText }

/-- Carries out the command that the arguments ask for. -/
def execute (surroundings : Surroundings) : List String → Report
  | [] => { out := usageText }
  | name :: args =>
    match FileCommand.ofName? name, args with
    | some _, [] => complain ["Usage: splc " ++ name ++ " <file.spl>"]
    | some command, path :: _ => onFile surroundings command path
    | none, args => plain name args

end Command

end SlotScript
