import DocTree.Cli.Path
import DocTree.OrdMap
import DocTree.Text.Newline

/-!
# Files

A `Host` is what the program needs of the system that runs it: to read a text file and to write one,
both as actions of some monad. `FileTree.host` is a host that keeps its files in memory, so that a
run of the program is a function from file trees to file trees.
-/

namespace DocTree.Cli

/-- What is found where a text file is looked for. Texts of files have characters only. -/
inductive Content where
  | missing
  /-- A directory, or a file that holds no text. -/
  | unreadable
  | text (s : String)
  deriving DecidableEq, Repr

/-- What the program needs of the system that runs it. -/
structure Host (m : Type → Type) where
  /-- The directory that paths start from. -/
  directory : Path
  home : Path
  read : Path → m Content
  /-- Writes a file and the directories above it, and tells whether that was possible. -/
  write : Path → String → m Bool

/-- Files held in memory. The directory worked in, the home, and all that is above these or above a
file, are directories. -/
structure FileTree where
  directory : Path
  home : Path
  files : OrdMap Path ByteArray

namespace FileTree

def isDirectory (t : FileTree) (p : Path) : Bool :=
  [t.directory, t.home].any (fun q => p = q || p.isAbove q) || t.files.keys.any p.isAbove

def nameLimit : Nat := 255

def pathLimit : Nat := 4095

def isName (name : String) : Bool := Path.byteSize name ≤ nameLimit

def isPossible (p : Path) : Bool := p.names.all isName && Path.byteSize p.text ≤ pathLimit

/-- Whether nothing can be said about a path: it is too long, or a name that is too long is looked
for in a directory. Below anything else there is nothing, whatever its name. -/
def isUnclear (t : FileTree) (p : Path) : Bool :=
  pathLimit < Path.byteSize p.text
    || (!p.names.all isName && t.isDirectory ⟨p.names.takeWhile isName⟩)

/-- What is found at a path. -/
def look (t : FileTree) (p : Path) : Content :=
  if t.isUnclear p || t.isDirectory p then .unreadable
  else
    match t.files.find? p with
    | none => .missing
    | some bytes =>
      match Text.ofFile bytes with
      | none => .unreadable
      | some s => .text s

/-- Whether a file may be written: nothing but directories may be above it, and no directory may be
in its place. -/
def isFree (t : FileTree) (p : Path) : Bool :=
  isPossible p && !t.isDirectory p && !(t.files.keys.any (·.isAbove p))

def write (t : FileTree) (p : Path) (s : String) : FileTree :=
  { t with files := t.files.insert p s.toUTF8 }

def host (t : FileTree) : Host (StateM FileTree) where
  directory := t.directory
  home := t.home
  read p := return (← get).look p
  write p s := do
    let t ← get
    if t.isFree p then
      set (t.write p s)
      return true
    else return false

end FileTree

end DocTree.Cli
