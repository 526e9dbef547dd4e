/-!
# Code points

JSON text can name the two halves of a surrogate pair apart from each other, and such a half is no
character. A `String` holds a sequence of code points all the same: two characters spell a half, a
mark and the private character that is `0x100000` beyond the half, and two marks spell the character
that serves as the mark. Every other code point is spelled by its own character.

`points` reads what `ofPoints` spells. Files hold characters only: `plain?` gives the text without
spelling, unless there is a half in it, and `ofPlain` goes back.
-/

namespace DocTree.Text

def isHalf (n : Nat) : Bool := 0xD800 ≤ n && n ≤ 0xDFFF

def halfOffset : Nat := 0x100000

def markPoint : Nat := 0x10FFFF

/-- The character in front of what stands for a half. -/
def mark : Char := Char.ofNat markPoint

def spell (n : Nat) : List Char :=
  if isHalf n then [mark, Char.ofNat (halfOffset + n)]
  else if n = markPoint then [mark, mark]
  else [Char.ofNat n]

def marked (c : Char) : Nat :=
  if isHalf (c.toNat - halfOffset) then c.toNat - halfOffset else c.toNat

def readPoints : List Char → List Nat
  | [] => []
  | [c] => [c.toNat]
  | c :: d :: cs => if c = mark then marked d :: readPoints cs else c.toNat :: readPoints (d :: cs)

def points (s : String) : List Nat := readPoints s.toList

def ofPoints (ns : List Nat) : String := String.ofList (ns.flatMap spell)

def ofPlain (s : String) : String := ofPoints (s.toList.map Char.toNat)

/-- The characters of a text, if it is spelled from characters. -/
def plain? (s : String) : Option String :=
  if (points s).any isHalf then none else some (String.ofList ((points s).map Char.ofNat))

end DocTree.Text
