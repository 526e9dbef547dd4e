import DocTree.Cli.Arguments

/-!
# Requests

There are two commands: `resolve` resolves the undocumented symbols of a model, `check` lists them.
A `Request` is what a command line asks for; `Request.ofWords` reads it.

What a command does not know is refused by the program as a whole, after the command itself found
nothing wrong.
-/

namespace DocTree.Cli

/-- The forms in which `resolve` gives its result. -/
inductive Format where
  | summary
  | report
  | json
  deriving DecidableEq, Repr

/-- What `resolve` may be told. -/
structure ResolveSettings where
  /-- The name of the namespaces to create; otherwise the model decides. -/
  namespaceName : Option Argument := none
  /-- Whether to create nothing; otherwise the model decides. -/
  linkOnly : Bool := false
  format : Format := .summary
  /-- The file to write. -/
  output : Option Argument := none
  deriving DecidableEq, Repr

structure CheckSettings where
  /-- The file to write. -/
  output : Option Argument := none
  deriving DecidableEq, Repr

/-- What to do with a model. -/
inductive Task where
  | resolve (settings : ResolveSettings)
  | check (settings : CheckSettings)
  deriving DecidableEq, Repr

def Task.output : Task → Option Argument
  | resolve settings => settings.output
  | check settings => settings.output

/-- What a command line asks for. -/
structure Request where
  /-- How often more log lines are asked for. -/
  verbosity : Nat
  task : Task
  /-- The file that holds the model. -/
  model : String
  deriving DecidableEq, Repr

def programName : String := "missing-exports"

def programVersion : String := "0.2.0"

def helpSwitch : Switch α := ⟨["-h", "--help"], .help, "show this help message and exit"⟩

def outputSwitch (set : Argument → α → α) : Switch α :=
  ⟨["-o", "--output"], .text set, "Output file (\"-\" or omit for stdout)."⟩

/-- The program as a whole. Its setting is the verbosity, and its operand a command with all of the
command's words. -/
def programSpec : Spec Nat where
  program := programName
  about := "Resolve type references to undocumented symbols in a documentation model."
  switches := [
    helpSwitch,
    ⟨["--version"], .version, "show program's version number and exit"⟩,
    ⟨["-v", "--verbose"], .change (· + 1), "Increase log verbosity (-v info, -vv debug)."⟩]
  operand := "COMMAND"
  extent := .allWords

def resolveSpec : Spec ResolveSettings where
  program := programName ++ " resolve"
  about := "Load MODEL, run the resolution pass and emit a summary, the resolution report, or the "
    ++ "completed tree."
  switches := [
    helpSwitch,
    ⟨["--internal-namespace"], .text fun name s => { s with namespaceName := some name },
      "Name of the namespace holding synthesized declarations (default: internal)."⟩,
    ⟨["--no-missing-exports"], .change fun s => { s with linkOnly := true },
      "Only alias documented reflections; never synthesize."⟩,
    ⟨["-f", "--format"], .choice [
        ("summary", fun s => { s with format := .summary }),
        ("report", fun s => { s with format := .report }),
        ("json", fun s => { s with format := .json })] fun s => { s with format := .summary },
      "Output format (default: summary)."⟩,
    outputSwitch fun file s => { s with output := some file }]
  operand := "model"
  extent := .oneWord

def checkSpec : Spec CheckSettings where
  program := programName ++ " check"
  about := "List unresolved symbols without modifying the model."
  switches := [helpSwitch, outputSwitch fun file s => { s with output := some file }]
  operand := "model"
  extent := .oneWord

/-- A command that was read: what it does, its model, and the words it does not know. -/
structure Command where
  task : Task
  model : String
  strays : List String

/-- Reads the words of a command. -/
def Command.read (s : Spec α) (default : α) (task : α → Task) (words : List String) :
    Except Ending Command := do
  let a ← s.arguments default words
  match a.operand with
  | [] => s.refuse (.missingOperand s.operand)
  | model :: _ => return ⟨task a.settings, model, a.strays⟩

/-- The commands by name. -/
def commands : List (String × (List String → Except Ending Command)) :=
  [("resolve", Command.read resolveSpec {} .resolve), ("check", Command.read checkSpec {} .check)]

def refuseStrays (words : List String) : Except Ending Unit :=
  if words.isEmpty then .ok () else programSpec.refuse (.unrecognized words)

/-- Reads a command line. -/
def Request.ofWords (words : List String) : Except Ending Request := do
  let a ← programSpec.arguments 0 words
  match a.operand with
  | [] =>
    refuseStrays a.strays
    .error .noCommand
  | name :: rest =>
    match commands.find? (·.1 = name) with
    | none => programSpec.refuse (.notAChoice programSpec.operand name (commands.map Prod.fst))
    | some (_, read) =>
      let command ← read rest
      refuseStrays (a.strays ++ command.strays)
      return ⟨a.settings, command.task, command.model⟩

end DocTree.Cli
