/-!
# Blank characters

Two sets of blanks: the characters of the Unicode property `White_Space`, which separate the words
of a type expression, and the same with the four information separators, which are trimmed off the
ends of a label.
-/

namespace DocTree.Text

/-- The Unicode property `White_Space`. -/
def isBlank (c : Char) : Bool :=
  let n := c.val
  (0x09 ≤ n && n ≤ 0x0D) || n = 0x20 || n = 0x85 || n = 0xA0 || n = 0x1680 ||
    (0x2000 ≤ n && n ≤ 0x200A) || n = 0x2028 || n = 0x2029 || n = 0x202F || n = 0x205F ||
    n = 0x3000

def isSpacing (c : Char) : Bool :=
  isBlank c || (0x1C ≤ c.val && c.val ≤ 0x1F)

def trim (cs : List Char) : List Char :=
  ((cs.dropWhile isSpacing).reverse.dropWhile isSpacing).reverse

end DocTree.Text
