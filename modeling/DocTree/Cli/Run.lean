import DocTree.Cli.Host
import DocTree.Cli.Request
import DocTree.Document.Load
import DocTree.Json.Writer
import DocTree.Output
import DocTree.Plugin

/-!
# Running a request

A request is answered in a fresh workspace with the plugin: the model is loaded, the command line
overrides the options of the model, the task gives a text, and the text is written. Any failure ends
the run; the log keeps what was written before.

`Task.answer` is the part without files.
-/

namespace DocTree.Cli

/-- How a run ends. -/
structure Result where
  exitCode : Nat
  /-- What is written to the standard output. -/
  output : String
  log : List LogLine

/-- What the program does with a command line. -/
inductive Outcome where
  | ended (ending : Ending)
  | ran (result : Result)

def exitDone : Nat := 0

def exitMissing : Nat := 1

def exitFailed : Nat := 2

def Ending.exitCode : Ending → Nat
  | .help _ | .version => exitDone
  | .noCommand | .misuse .. => exitFailed

def leastLevel : Nat → LogLevel
  | 0 => .warning
  | 1 => .info
  | _ => .debug

def shownLog (verbosity : Nat) (w : Workspace) : List LogLine :=
  w.log.reverse.filter fun line => (leastLevel verbosity).rank ≤ line.level.rank

/-- The log text for a failure that was not expected. -/
def unexpected : String := "Unhandled exception"

def failureText (e : Error) : String := (e.notice?.bind Notice.text).getD unexpected

/-- Steps of a run. A failure keeps what was done. -/
abbrev Session := EStateM Error Workspace

namespace Session

def step (f : Workspace → Except Error α × Workspace) : Session α := fun w =>
  match f w with
  | (.ok a, w) => .ok a w
  | (.error e, w) => .error e w

/-- A question that leaves the workspace as it is. -/
def ask (f : Workspace → Except Error α) : Session α := step fun w => (f w, w)

def log (message : String) : Session Unit :=
  modify (·.report .info .commandLine message)

def override (d : OptionDeclaration) (v : Value) : Session Unit := do
  if ← ask (·.settings.isSet d.name) then
    let old ← ask (·.settings.get d.name)
    log ("command line overrides " ++ d.name.text ++ "=" ++ old.display ++ " from the model")
  step fun w =>
    match w.setOption d.name v with
    | .ok w => (.ok (), w)
    | .error e => (.error e, w)

def loadModel (source text : String) : Session Unit := do
  step Workspace.loadPlugin
  step (·.loadText source text)

end Session

def missingLine (s : Store) (module : NodeId) (symbol : SymbolId) : String :=
  let symbol := s.symbol symbol
  (s.node module).name.text ++ ": " ++ symbol.name.text ++ " (" ++ symbol.kind.label ++ ")"

def missingLines (w : Workspace) : List String :=
  w.modules.flatMap fun module => (w.store.missing module).map (missingLine w.store module)

def missingText (lines : List String) : String :=
  if lines.isEmpty then Report.nothingMissing else "\n".intercalate lines

/-- What a task has to say about a model. -/
structure Answer where
  text : String
  /-- How many undocumented symbols were found, if that was the question. -/
  found : Option Nat

namespace ResolveSettings

def optionValue : Argument → Value
  | .word text => .str text
  | .blank => .list []

def overrideOptions (s : ResolveSettings) : Session Unit := do
  match s.namespaceName with
  | some name => Session.override namespaceOption (optionValue name)
  | none => pure ()
  if s.linkOnly then Session.override linkOnlyOption (.bool true)

/-- The result of a resolution in the form asked for. -/
def text (s : ResolveSettings) (w : Workspace) (r : Report) : Except Error String :=
  match s.format with
  | .summary => .ok (r.summary w.store)
  | .report => (r.toValue w.store).map Json.pretty
  | .json => .ok (Json.pretty (w.store.nodeValue w.project))

end ResolveSettings

def Task.answer (task : Task) (source text : String) : Session Answer := do
  Session.loadModel source text
  match task with
  | .resolve settings =>
    settings.overrideOptions
    let report ← Session.step Workspace.resolve
    return ⟨← Session.ask fun w => settings.text w (report.getD []), none⟩
  | .check _ =>
    let lines ← Session.ask fun w => .ok (missingLines w)
    return ⟨missingText lines, some lines.length⟩

def closeLine (s : String) : String := if s.endsWith "\n" then s else s ++ "\n"

/-- Where an answer goes. -/
inductive Destination where
  | standardOutput
  | file (path : Path)
  /-- Nothing that could be written to. -/
  | nowhere

/-- Where an answer goes by what the command line says: without a word about it, or with a dash, to
the standard output. -/
def Destination.ofArgument (directory home : Path) : Option Argument → Destination
  | none => .standardOutput
  | some .blank => .nowhere
  | some (.word text) =>
    if text = "-" then .standardOutput
    else
      match Path.ofText directory home text with
      | none => .nowhere
      | some path => .file path

namespace Request

def failed (r : Request) (w : Workspace) (text : String) : Result :=
  ⟨exitFailed, "", shownLog r.verbosity (w.report .error .commandLine text)⟩

/-- The run whose answer was written. -/
def done (r : Request) (w : Workspace) (output : String) : Option Nat → Result
  | none => ⟨exitDone, output, shownLog r.verbosity w⟩
  | some found =>
    ⟨if found = 0 then exitDone else exitMissing, output,
      shownLog r.verbosity
        (w.report .info .commandLine (toString found ++ " missing symbol(s)"))⟩

variable {m : Type → Type} [Monad m]

/-- Writes an answer. A file is opened before it turns out that it cannot hold the text. -/
def deliver (r : Request) (host : Host m) (w : Workspace) (a : Answer) : m Result := do
  let text := closeLine a.text
  match Destination.ofArgument host.directory host.home r.task.output with
  | .standardOutput => return r.done w text a.found
  | .nowhere => return r.failed w unexpected
  | .file path =>
    match Text.plain? text with
    | some text =>
      if ← host.write path text then return r.done w "" a.found
      else return r.failed w unexpected
    | none =>
      let _ ← host.write path ""
      return r.failed w unexpected

def runOn (r : Request) (host : Host m) (source text : String) : m Result :=
  match (r.task.answer source text).run .empty with
  | .ok a w => r.deliver host w a
  | .error e w => return r.failed w (failureText e)

/-- Runs a request. -/
def run (r : Request) (host : Host m) : m Result := do
  match Path.ofText host.directory host.home r.model with
  | none => return r.failed .empty unexpected
  | some path =>
    match ← host.read path with
    | .missing => return r.failed .empty ("model not found: " ++ path.text)
    | .unreadable => return r.failed .empty unexpected
    | .text text => r.runOn host path.text text

end Request

/-- Runs a command line. -/
def run {m : Type → Type} [Monad m] (host : Host m) (words : List String) : m Outcome :=
  match Request.ofWords words with
  | .error ending => return .ended ending
  | .ok request => return .ran (← request.run host)

end DocTree.Cli
