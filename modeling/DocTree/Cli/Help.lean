import DocTree.Cli.Run

/-!
# What users see

The help of a command, and the texts that the program shows for the outcome of a run.
-/

namespace DocTree.Cli

namespace Spec

/-- How a command is called, on one line. -/
def usage (s : Spec α) : String :=
  "usage: " ++ s.program ++ " [options] " ++ s.operand
    ++ (match s.extent with
      | .oneWord => ""
      | .allWords => " ...") ++ "\n"

/-- Text with spaces at its end, `width` characters long. -/
def padded (width : Nat) (text : String) : String :=
  text ++ String.ofList (List.replicate (width - text.length) ' ')

def helpLine (width : Nat) (s : Switch α) : String :=
  "  " ++ padded width (", ".intercalate s.names) ++ "  " ++ s.about ++ "\n"

def help (s : Spec α) : String :=
  let width := (s.switches.map fun switch => (", ".intercalate switch.names).length).foldl max 0
  s.usage ++ "\n" ++ s.about ++ "\n\noptions:\n" ++ String.join (s.switches.map (helpLine width))

end Spec

def programHelp : String :=
  programSpec.help ++ "\ncommands: " ++ ", ".intercalate (commands.map Prod.fst) ++ "\n"

def helpOf (program : String) : String :=
  if program = resolveSpec.program then resolveSpec.help
  else if program = checkSpec.program then checkSpec.help
  else programHelp

def usageOf (program : String) : String :=
  if program = resolveSpec.program then resolveSpec.usage
  else if program = checkSpec.program then checkSpec.usage
  else programSpec.usage

def faultLine (program : String) (fault : Misuse) : String :=
  program ++ ": error: " ++ fault.message

def versionLine : String := programName ++ " " ++ programVersion ++ "\n"

/-- What is shown in the end. -/
structure Screen where
  exitCode : Nat
  output : String
  errors : String

/-- What is shown for a command line that is not run. -/
def Ending.screen (e : Ending) : Screen :=
  match e with
  | .help program => ⟨e.exitCode, helpOf program, ""⟩
  | .version => ⟨e.exitCode, versionLine, ""⟩
  | .noCommand => ⟨e.exitCode, "", programHelp⟩
  | .misuse program fault =>
    ⟨e.exitCode, "", usageOf program ++ faultLine program fault ++ "\n"⟩

def Outcome.screen : Outcome → Screen
  | ended e => e.screen
  | ran r => ⟨r.exitCode, r.output, String.join (r.log.map (·.text ++ "\n"))⟩

end DocTree.Cli
