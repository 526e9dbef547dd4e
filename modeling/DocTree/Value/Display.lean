import DocTree.Decimal.Notation
import DocTree.Text.Quoted
import DocTree.Value

/-!
# Values in messages

`display` shows a value so that its kind can be told: strings are quoted, lists and objects are in
brackets. `text` is the same except that a string stands for itself.
-/

namespace DocTree.Value

mutual

/-- The text that shows a value. A whole number is shown with all its digits, although one of more than
`Decimal.digitLimit` digits, which no text or document holds, should be refused. -/
def display : Value → String
  | null => "None"
  | bool b => if b then "True" else "False"
  | int n => toString n
  | float x => Decimal.plain.format x
  | str s => Text.quoted s
  | list items => "[" ++ ", ".intercalate (displayItems items) ++ "]"
  | object fields => "\x7b" ++ ", ".intercalate (displayFields fields) ++ "\x7d"

def displayItems : List Value → List String
  | [] => []
  | v :: vs => display v :: displayItems vs

def displayFields : List (String × Value) → List String
  | [] => []
  | (k, v) :: fs => (Text.quoted k ++ ": " ++ display v) :: displayFields fs

end

/-- A string as it is, any other value as `display` shows it. -/
def text : Value → String
  | str s => s
  | v => display v

@[simp] theorem text_str (s : String) : text (str s) = s := rfl

end DocTree.Value
