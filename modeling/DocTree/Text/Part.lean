/-!
# Parts of texts

`Text.parts` cuts a text wherever a given character stands. What is cut out of a text without this
character is the text itself, so there is always at least one part.
-/

namespace DocTree.Text

/-- What stands between the occurrences of a separator, by characters. -/
def cut (separator : Char) : List Char → List (List Char)
  | [] => [[]]
  | c :: cs =>
    if c = separator then [] :: cut separator cs
    else
      match cut separator cs with
      | [] => [[c]]
      | part :: parts => (c :: part) :: parts

def parts (separator : Char) (text : String) : List String :=
  (cut separator text.toList).map String.ofList

end DocTree.Text
