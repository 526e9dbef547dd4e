/-!
# Line ends

Text comes with different line ends: a line feed, a carriage return, or both. `unifyLineEnds` makes
each of them a line feed, and no carriage return is left.
-/

namespace DocTree.Text

def unifyLineEnds : List Char → List Char
  | [] => []
  | '\r' :: '\n' :: cs => '\n' :: unifyLineEnds cs
  | c :: cs => (if c = '\r' then '\n' else c) :: unifyLineEnds cs

def ofFile (bytes : ByteArray) : Option String :=
  (String.fromUTF8? bytes).map fun s => String.ofList (unifyLineEnds s.toList)

end DocTree.Text
