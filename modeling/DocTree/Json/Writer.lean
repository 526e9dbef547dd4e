import DocTree.Decimal.Notation
import DocTree.Text.Quoted
import DocTree.Value

/-!
# Writing JSON

JSON text in printable ASCII: every other character is written as one or two escapes of UTF-16 code
units, half of a surrogate pair as an escape of its own. `pretty` puts each item and field on a
line of its own, two spaces deeper than its container; `compact` writes one line.
-/

namespace DocTree.Json

/-- Numbers are written as everywhere else, but the special doubles have names of their own. -/
def numbers : Decimal.Style :=
  { Decimal.plain with infinite := "Infinity", undefined := "NaN" }

def unitEscape (n : Nat) : List Char := '\\' :: 'u' :: Text.hex 4 n

def writePoint (n : Nat) : List Char :=
  match Char.ofNat n with
  | '"' => ['\\', '"']
  | '\\' => ['\\', '\\']
  | '\n' => ['\\', 'n']
  | '\r' => ['\\', 'r']
  | '\t' => ['\\', 't']
  | '\x08' => ['\\', 'b']
  | '\x0c' => ['\\', 'f']
  | c =>
    if 0x20 ≤ n ∧ n < 0x7f then [c]
    else if n < 0x10000 then unitEscape n
    else unitEscape (0xD800 + (n - 0x10000) / 0x400) ++ unitEscape (0xDC00 + (n - 0x10000) % 0x400)

def writeString (s : String) : String :=
  "\"" ++ String.ofList ((Text.points s).flatMap writePoint) ++ "\""

/-- What stands between the parts of a container. -/
structure Layout where
  /-- Precedes every part at the given depth. -/
  lead : Nat → String
  comma : String
  colon : String

def Layout.compact : Layout := ⟨fun _ => "", ",", ":"⟩

def Layout.indented : Layout :=
  ⟨fun depth => "\n" ++ String.ofList (List.replicate (2 * depth) ' '), ",", ": "⟩

def Layout.bracket (l : Layout) (depth : Nat) (opening closing : String) (parts : List String) :
    String :=
  if parts.isEmpty then opening ++ closing
  else
    opening ++ l.comma.intercalate (parts.map (l.lead (depth + 1) ++ ·)) ++ l.lead depth ++ closing

mutual

def Layout.write (l : Layout) (depth : Nat) : Value → String
  | .null => "null"
  | .bool b => if b then "true" else "false"
  | .int n => toString n
  | .float x => numbers.format x
  | .str s => writeString s
  | .list items => l.bracket depth "[" "]" (l.writeItems (depth + 1) items)
  | .object fields => l.bracket depth "\x7b" "\x7d" (l.writeFields (depth + 1) fields)

def Layout.writeItems (l : Layout) (depth : Nat) : List Value → List String
  | [] => []
  | v :: vs => l.write depth v :: l.writeItems depth vs

def Layout.writeFields (l : Layout) (depth : Nat) : List (String × Value) → List String
  | [] => []
  | (k, v) :: fs => (writeString k ++ l.colon ++ l.write depth v) :: l.writeFields depth fs

end

def compact (v : Value) : String := Layout.compact.write 0 v

def pretty (v : Value) : String := Layout.indented.write 0 v

end DocTree.Json
