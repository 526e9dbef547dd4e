import DocTree.Decimal.Binary
import DocTree.Text.Blank
import DocTree.Text.Point
import DocTree.TypeExpr.Rule
import DocTree.TypeExpr.Syntax

/-!
# The grammar of type expressions

    type          = _ union _
    union         = intersection (_ "|" _ intersection)*
    intersection  = postfix (_ "&" _ postfix)*
    postfix       = primary suffix*
    suffix        = _ "[" _ "]"
    primary       = function / parenthesized / tuple / object / operator / query
                  / string / number / keyword / reference
    function      = "(" _ parameters? _ ")" _ "=>" _ union
    parameters    = parameter (_ "," _ parameter)*
    parameter     = rest? identifier mark? _ ":" _ union
    parenthesized = "(" _ union _ ")"
    tuple         = "[" _ (union (_ "," _ union)*)? _ "]"
    object        = "{" _ members? _ "}"
    members       = member (_ separator _ member)* (_ separator)?
    member        = identifier mark? _ ":" _ union
    operator      = ("keyof" / "readonly" / "unique") __ postfix
    query         = "typeof" __ path
    keyword       = ("true" / "false" / "null") !identifierCharacter
    reference     = path arguments?
    arguments     = _ "<" _ union (_ "," _ union)* _ ">"
    path          = identifier ("." identifier)*

Every rule here has a name, the words in it have none. `_` is any number of blanks, `__` at least
one. The two rules that go round in circles, `union` and `postfix`, are tied by levels: those of one
level use those of the level below. Each round reads at least one character, so that one level more
than the text has characters reads everything.
-/

namespace DocTree.TypeExpr

namespace Grammar

open Rule

def blanks : Rule Unit := named do
  let _ ← run Text.isBlank
  return ()

def someBlanks : Rule Unit := named do
  let _ ← one Text.isBlank
  let _ ← run Text.isBlank
  return ()

def spaced (w : String) : Rule Unit := do
  blanks
  word w
  blanks

/-- One item or more, with a word and blanks between them. -/
def separated (r : Rule α) (w : String) : Rule (List α) := do
  let first ← r
  let more ← many do
    spaced w
    r
  return first :: more

def isIdentifierStart (c : Char) : Bool := c.isAlpha || c = '_' || c = '$'

def isIdentifierChar (c : Char) : Bool := c.isAlphanum || c = '_' || c = '$'

def identifier : Rule (List Char) := named do
  let c ← one isIdentifierStart
  let more ← run isIdentifierChar
  return c :: more

/-- Identifiers with points between them. -/
def path : Rule String := named do
  let first ← identifier
  let more ← many do
    word "."
    identifier
  return ".".intercalate ((first :: more).map String.ofList)

/-- The text of a string literal behind its opening quote, and what follows the closing one. A
backslash makes the character behind it, which is not a line feed, an ordinary one. -/
def literalTail (quote : Char) : List Char → Option (List Char × List Char)
  | [] => none
  | '\\' :: c :: cs =>
    if c = '\n' then none else (literalTail quote cs).map fun p => (c :: p.1, p.2)
  | c :: cs =>
    if c = quote then some ([], cs)
    else if c = '\\' then none
    else (literalTail quote cs).map fun p => (c :: p.1, p.2)

def quotedBy (quote : Char) : Rule Value := fun cs =>
  match cs with
  | c :: rest =>
    if c = quote then
      ⟨(literalTail quote rest).map fun p => (.str (String.ofList p.1), p.2), id⟩
    else ⟨none, id⟩
  | [] => ⟨none, id⟩

def string : Rule Value := named (orElse (quotedBy '"') (quotedBy '\''))

def digits : Rule (List Char) := do
  let d ← one Char.isDigit
  let more ← run Char.isDigit
  return d :: more

/-- A number literal: a double if it has a point, a whole number otherwise. -/
def number : Rule Expr := named do
  let sign ← opt (text "-")
  let whole ← digits
  let fraction ← opt do
    text "."
    digits
  match fraction with
  | some fraction =>
    return .literal (.float (Decimal.toFloat sign.isSome (Decimal.natOf (whole ++ fraction))
      (-(fraction.length : Int))))
  | none =>
    match Decimal.whole? whole with
    | none => return .longNumber
    | some n => return .literal (.int (if sign.isSome then -n else n))

def meaning (w : String) (a : α) : Rule α := do
  word w
  return a

def keyword : Rule Value := named do
  let v ← choice [meaning "true" (.bool true), meaning "false" (.bool false), meaning "null" .null]
  absent (named (one isIdentifierChar))
  return v

def operatorWord : Rule String := named
  (choice [meaning "keyof" "keyof", meaning "readonly" "readonly", meaning "unique" "unique"])

def query : Rule Expr := named do
  word "typeof"
  someBlanks
  return .query (← path)

def mark : Rule Unit := named (word "?")

/-- The mark of a parameter for all further arguments. -/
def rest : Rule Unit := named (word "...")

def separator : Rule Unit := named (orElse (word ";") (word ","))

def combine (f : List Expr → Expr) : List Expr → Expr
  | [e] => e
  | es => f es

/-- The rules that others use in circles. -/
structure Level where
  union : Rule Expr
  operand : Rule Expr

def member (l : Level) : Rule (String × Expr) := named do
  let name ← identifier
  let _ ← opt mark
  spaced ":"
  return (String.ofList name, ← l.union)

def members (l : Level) : Rule (List (String × Expr)) := named do
  let first ← member l
  let more ← many do
    blanks
    separator
    blanks
    member l
  let _ ← opt do
    blanks
    separator
  return first :: more

def object (l : Level) : Rule Expr := named do
  word "\x7b"
  blanks
  let found ← opt (members l)
  blanks
  word "\x7d"
  return .object (found.getD [])

/-- A parameter of a function. -/
def parameter (l : Level) : Rule ((String × Marks) × Expr) := named do
  let isRest ← opt rest
  let name ← identifier
  let isOptional ← opt mark
  spaced ":"
  let type ← l.union
  return ((String.ofList name, ⟨isOptional.isSome, isRest.isSome⟩), type)

def parameters (l : Level) : Rule (List ((String × Marks) × Expr)) :=
  named (separated (parameter l) ",")

def function (l : Level) : Rule Expr := named do
  word "("
  blanks
  let found ← opt (parameters l)
  blanks
  word ")"
  spaced "=>"
  return .function (found.getD []) (← l.union)

def parenthesized (l : Level) : Rule Expr := named do
  word "("
  blanks
  let e ← l.union
  blanks
  word ")"
  return e

def elements (l : Level) : Rule (List Expr) := named (separated l.union ",")

def tuple (l : Level) : Rule Expr := named do
  word "["
  blanks
  let found ← opt (elements l)
  blanks
  word "]"
  return .tuple (found.getD [])

def operator (l : Level) : Rule Expr := named do
  let w ← operatorWord
  someBlanks
  return .operator w (← l.operand)

def arguments (l : Level) : Rule (List Expr) := named do
  spaced "<"
  let args ← separated l.union ","
  blanks
  word ">"
  return args

/-- A name with its type arguments. -/
def reference (l : Level) : Rule Expr := named do
  let name ← path
  let args ← opt (arguments l)
  return .name name (args.getD [])

def literal (r : Rule Value) : Rule Expr := do
  return .literal (← r)

def primary (l : Level) : Rule Expr := named
  (choice [function l, parenthesized l, tuple l, object l, operator l, query, literal string,
    number, literal keyword, reference l])

def suffix : Rule Unit := named do
  spaced "["
  word "]"

def suffixed (l : Level) : Rule Expr := named do
  let e ← primary l
  let suffixes ← many suffix
  return suffixes.foldl (fun e _ => .array e) e

def intersection (l : Level) : Rule Expr := named do
  return combine .intersection (← separated (suffixed l) "&")

def union (l : Level) : Rule Expr := named do
  return combine .union (← separated (intersection l) "|")

def level : Nat → Level
  | 0 => ⟨fail, fail⟩
  | n + 1 => ⟨union (level n), suffixed (level n)⟩

def type (depth : Nat) : Rule Expr := named do
  blanks
  let e ← (level depth).union
  blanks
  return e

end Grammar

/-- The position at which `left` characters of a text are left, in code points. -/
def position (cs : List Char) (left : Nat) : Nat :=
  (Text.readPoints (cs.take (cs.length - left))).length

/-- Reads a type expression. A text that is none is refused at a position: where reading ended, if
it read a type in front of more text, and otherwise the place noted for where it got stuck. -/
def parse (text : String) : Except Nat Expr :=
  let cs := text.toList
  let reply := Grammar.type (cs.length + 1) cs
  match reply.result with
  | some (e, []) => .ok e
  | some (_, rest) => .error (position cs rest.length)
  | none => .error (position cs ((reply.trace .start).left.getD cs.length))

end DocTree.TypeExpr
