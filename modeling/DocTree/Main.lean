import DocTree.Cli.Help

/-!
# The program

The command line on the files of the system.
-/

namespace DocTree.Cli

/-- Whether there is anything at a path. -/
def isPresent (path : String) : IO Bool := do
  try
    let _ ← IO.FS.realPath path
    return true
  catch _ => return false

/-- What is found at a path. -/
def readContent (path : Path) : IO Content := do
  try
    let bytes ← IO.FS.readBinFile (Text.shown path.text)
    return ((Text.ofFile bytes).map .text).getD .unreadable
  catch
    | .noFileOrDirectory .. => return .missing
    | .inappropriateType .. =>
      return if ← isPresent (Text.shown path.text) then .unreadable else .missing
    | _ => return .unreadable

def writeContent (path : Path) (s : String) : IO Bool := do
  try
    IO.FS.createDirAll (Text.shown (⟨path.names.dropLast⟩ : Path).text)
    IO.FS.writeFile (Text.shown path.text) s
    return true
  catch _ => return false

def systemHost : IO (Host IO) := do
  let directory := Text.ofPlain (← IO.currentDir).toString
  let home := Text.ofPlain ((← IO.getEnv "HOME").getD "/")
  return ⟨⟨Path.parts directory⟩, ⟨Path.parts home⟩, readContent, writeContent⟩

end DocTree.Cli

open DocTree DocTree.Cli in
def main (words : List String) : IO UInt32 := do
  let screen := (← run (← systemHost) (words.map Text.ofPlain)).screen
  IO.eprint (Text.shown screen.errors)
  IO.print (Text.shown screen.output)
  return screen.exitCode.toUInt32
