import DocTree.Text.Part
import DocTree.Text.Point

/-!
# File paths

An absolute path is the list of names on the way from the root. `Path.ofText` reads a path as users
write it: from the root, from a home directory, or from the directory that the program works in,
with `.` and `..` for a directory itself and the one above it.

Names are bytes. One that is no UTF-8 is written with a half of a surrogate pair for each byte that
is no part of a character.
-/

namespace DocTree.Cli

structure Path where
  names : List String
  deriving DecidableEq, Repr, Inhabited

namespace Path

/-- The text of a path. -/
def text (p : Path) : String := "/" ++ "/".intercalate p.names

def enter (p : Path) (name : String) : Path :=
  if name = ".." then ⟨p.names.dropLast⟩ else ⟨p.names ++ [name]⟩

def follow (p : Path) (names : List String) : Path := names.foldl enter p

def isAbove (p q : Path) : Bool := p.names.isPrefixOf q.names && p ≠ q

def parts (text : String) : List String :=
  (Text.parts '/' text).filter fun name => name ≠ "" ∧ name ≠ "."

def isByte (n : Nat) : Bool := 0xDC80 ≤ n && n ≤ 0xDCFF

def pointSize (n : Nat) : Nat := if Text.isHalf n then 1 else (Char.ofNat n).utf8Size

def byteSize (text : String) : Nat := ((Text.points text).map pointSize).foldl (· + ·) 0

def isPathPoint (n : Nat) : Bool := n ≠ 0 && (!Text.isHalf n || isByte n)

/-- The path that a text means in a working directory, for a user whose home is `home`. Other homes
are not known, and no path holds a null character or a half that stands for no byte. -/
def ofText (directory home : Path) (text : String) : Option Path :=
  if !(Text.points text).all isPathPoint then none
  else if text.startsWith "/" then some (follow ⟨[]⟩ (parts text))
  else
    match parts text with
    | [] => some directory
    | name :: names =>
      if name = "~" then some (home.follow names)
      else if name.startsWith "~" then none
      else some (directory.follow (name :: names))

end Path

end DocTree.Cli
