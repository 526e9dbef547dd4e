import DocTree.TypeExpr.Grammar

/-!
# Syntax trees

The grammar once more, with a tree of everything that was read for a result. A rule of several parts has a child for
each of them, blanks included; a choice has the alternative that was read for its only child; an option or a repetition
has a child for each time that something was read. What is read, and where reading gets stuck, is the same as before.

* `Label`, `Tree` : the rules with a name, and the trees; `Tree.text` : the characters that a tree was read from;
* `Concrete.type` : the grammar; `Tree.parse` : the tree of a text, or the position at which it is refused.
-/

namespace DocTree.TypeExpr

/-- The rules with a name that are read themselves, and not only looked for. -/
inductive Label where
  | type | union | intersection | suffixed | suffix | primary
  | function | parameters | parameter | rest | mark | parenthesized | tuple | elements
  | object | members | member | separator | operator | operatorWord | query
  | string | number | keyword | reference | arguments | path | identifier
  | blanks | someBlanks

/-- What was read, rule by rule. -/
inductive Tree where
  /-- Characters that one rule read, or none. -/
  | leaf (label : Option Label) (text : List Char)
  | node (label : Option Label) (children : List Tree)

namespace Tree

/-- The rule that a tree was read by, if it has a name. -/
def label : Tree → Option Label
  | leaf label _ | node label _ => label

def children : Tree → List Tree
  | leaf .. => []
  | node _ children => children

mutual

/-- The characters that a tree was read from. -/
def text : Tree → List Char
  | leaf _ text => text
  | node _ children => textAll children

def textAll : List Tree → List Char
  | [] => []
  | t :: ts => text t ++ textAll ts

end

/-- A word. -/
abbrev word (cs : List Char) : Tree := .leaf none cs

/-- Any number of blanks. -/
abbrev gap (cs : List Char) : Tree := .leaf (some .blanks) cs

end Tree

namespace Concrete

open Rule Grammar

/-- Characters as a leaf. -/
def leaf (label : Option Label) (r : Rule (List Char)) : Rule Tree := do
  return .leaf label (← r)

/-- A given word. -/
def literal (label : Option Label) (w : String) : Rule Tree :=
  leaf label do
    word w
    return w.toList

def series : List (Rule Tree) → Rule (List Tree)
  | [] => return []
  | r :: rs => do
    let t ← r
    let ts ← series rs
    return t :: ts

/-- A rule of several parts. -/
def parts (label : Option Label) (rs : List (Rule Tree)) : Rule Tree := do
  return .node label (← series rs)

def oneOf (label : Option Label) (rs : List (Rule Tree)) : Rule Tree := do
  return .node label [← choice rs]

/-- A rule or nothing. -/
def perhaps (r : Rule Tree) : Rule Tree := do
  return .node none (← opt r).toList

/-- As many repetitions as there are. -/
def repeated (r : Rule Tree) : Rule Tree := do
  return .node none (← many r)

def lacking (r : Rule Char) : Rule Tree := do
  absent r
  return .leaf none []

/-! ## Words and characters -/

def blanks : Rule Tree := named (leaf (some .blanks) (run Text.isBlank))

def someBlanks : Rule Tree := named
  (leaf (some .someBlanks) do
    let c ← one Text.isBlank
    let more ← run Text.isBlank
    return c :: more)

def identifier : Rule Tree := named
  (leaf (some .identifier) do
    let c ← one isIdentifierStart
    let more ← run isIdentifierChar
    return c :: more)

def path : Rule Tree := named
  (parts (some .path) [identifier, repeated (parts none [literal none ".", identifier])])

/-- A string literal behind its opening quote, up to the closing one, as it is written. -/
def quotedTail (quote : Char) : List Char → Option (List Char × List Char)
  | [] => none
  | '\\' :: c :: cs =>
    if c = '\n' then none else (quotedTail quote cs).map fun p => ('\\' :: c :: p.1, p.2)
  | c :: cs =>
    if c = quote then some ([c], cs)
    else if c = '\\' then none
    else (quotedTail quote cs).map fun p => (c :: p.1, p.2)

def quoted (quote : Char) : Rule (List Char) := fun cs =>
  match cs with
  | c :: rest =>
    if c = quote then ⟨(quotedTail quote rest).map fun p => (c :: p.1, p.2), id⟩ else ⟨none, id⟩
  | [] => ⟨none, id⟩

def string : Rule Tree := named
  (oneOf (some .string) [leaf none (quoted '"'), leaf none (quoted '\'')])

/-- A number literal as it is written. -/
def numeral : Rule (List Char) := do
  let sign ← opt (text "-")
  let whole ← digits
  let fraction ← opt do
    text "."
    digits
  return (if sign.isSome then ['-'] else []) ++ whole
    ++ (match fraction with | some fraction => '.' :: fraction | none => [])

def number : Rule Tree := named (leaf (some .number) numeral)

def keyword : Rule Tree := named
  (parts (some .keyword) [oneOf none [literal none "true", literal none "false", literal none "null"],
    lacking (named (one isIdentifierChar))])

def operatorWord : Rule Tree := named
  (oneOf (some .operatorWord) [literal none "keyof", literal none "readonly", literal none "unique"])

def query : Rule Tree := named (parts (some .query) [literal none "typeof", someBlanks, path])

def mark : Rule Tree := named (literal (some .mark) "?")

def rest : Rule Tree := named (literal (some .rest) "...")

def separator : Rule Tree := named (oneOf (some .separator) [literal none ";", literal none ","])

/-! ## Types -/

/-- Further items, each with a word in front and blanks around it. -/
def further (r : Rule Tree) (w : String) : Rule Tree :=
  repeated (parts none [blanks, literal none w, blanks, r])

/-- The rules that others use in circles. -/
structure Level where
  union : Rule Tree
  operand : Rule Tree

def member (l : Level) : Rule Tree := named
  (parts (some .member) [identifier, perhaps mark, blanks, literal none ":", blanks, l.union])

def members (l : Level) : Rule Tree := named
  (parts (some .members) [member l, repeated (parts none [blanks, separator, blanks, member l]),
    perhaps (parts none [blanks, separator])])

def object (l : Level) : Rule Tree := named
  (parts (some .object) [literal none "\x7b", blanks, perhaps (members l), blanks, literal none "\x7d"])

def parameter (l : Level) : Rule Tree := named
  (parts (some .parameter)
    [perhaps rest, identifier, perhaps mark, blanks, literal none ":", blanks, l.union])

def parameters (l : Level) : Rule Tree := named
  (parts (some .parameters) [parameter l, further (parameter l) ","])

def function (l : Level) : Rule Tree := named
  (parts (some .function) [literal none "(", blanks, perhaps (parameters l), blanks, literal none ")",
    blanks, literal none "=>", blanks, l.union])

def parenthesized (l : Level) : Rule Tree := named
  (parts (some .parenthesized) [literal none "(", blanks, l.union, blanks, literal none ")"])

def elements (l : Level) : Rule Tree := named (parts (some .elements) [l.union, further l.union ","])

def tuple (l : Level) : Rule Tree := named
  (parts (some .tuple) [literal none "[", blanks, perhaps (elements l), blanks, literal none "]"])

def operator (l : Level) : Rule Tree := named
  (parts (some .operator) [operatorWord, someBlanks, l.operand])

def arguments (l : Level) : Rule Tree := named
  (parts (some .arguments) [blanks, literal none "<", blanks, l.union, further l.union ",", blanks,
    literal none ">"])

def reference (l : Level) : Rule Tree := named
  (parts (some .reference) [path, perhaps (arguments l)])

def primary (l : Level) : Rule Tree := named
  (oneOf (some .primary) [function l, parenthesized l, tuple l, object l, operator l, query, string,
    number, keyword, reference l])

def suffix : Rule Tree := named
  (parts (some .suffix) [blanks, literal none "[", blanks, literal none "]"])

def suffixed (l : Level) : Rule Tree := named (parts (some .suffixed) [primary l, repeated suffix])

def intersection (l : Level) : Rule Tree := named
  (parts (some .intersection) [suffixed l, further (suffixed l) "&"])

def union (l : Level) : Rule Tree := named
  (parts (some .union) [intersection l, further (intersection l) "|"])

/-- The rules of a level, by those of the level below; the lowest ones always fail. -/
def level : Nat → Level
  | 0 => ⟨fail, fail⟩
  | n + 1 => ⟨union (level n), suffixed (level n)⟩

/-- A type with blanks around it. -/
def type (depth : Nat) : Rule Tree := named
  (parts (some .type) [blanks, (level depth).union, blanks])

end Concrete

/-- Reads the tree of a type expression. A text that is none is refused at a position. -/
def Tree.parse (text : String) : Except Nat Tree :=
  let cs := text.toList
  let reply := Concrete.type (cs.length + 1) cs
  match reply.result with
  | some (t, []) => .ok t
  | some (_, rest) => .error (position cs rest.length)
  | none => .error (position cs ((reply.trace .start).left.getD cs.length))

end DocTree.TypeExpr
