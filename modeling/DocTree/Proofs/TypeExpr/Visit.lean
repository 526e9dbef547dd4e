import DocTree.Proofs.TypeExpr.Tree
import DocTree.TypeExpr.Build

/-!
# Visiting a syntax tree

A type made from a tree of what was read: first from the children of a tree, then from the tree itself, which picks what
it needs by the position of the child. Nothing says in advance that there is a child at a position, or that a type was
made from it: where this is not so, visiting ends with a `Misfit`.

* `Visited` : what is made from a tree; `Visited.collect` : all of one kind in it;
* `assemble` : what is made from a tree, by what was made from its children; `visit` : … from a whole tree.
-/

namespace DocTree.TypeExpr

/-- Why a tree is not of the shape that its rule has. -/
inductive Misfit where
  /-- Nothing is found at a position. -/
  | missing
  /-- What is found there is of another kind. -/
  | otherKind

/-- What is made from a tree. -/
inductive Visited where
  /-- The tree itself. -/
  | tree (t : Tree)
  | list (parts : List Visited)
  | text (text : String)
  | type (type : Ty)
  | member (name : String) (isOptional : Bool) (type : Ty)
  | parameter (name : String) (marks : Marks) (type : Ty)

namespace Visited

variable {α : Type} (pick : Visited → Option α)

mutual

def collect : Visited → List α
  | list parts => collectAll parts
  | v => (pick v).toList

def collectAll : List Visited → List α
  | [] => []
  | v :: vs => collect v ++ collectAll vs

end

def type? : Visited → Option Ty
  | type t => some t
  | _ => none

def member? : Visited → Option (String × Ty)
  | member name _ t => some (name, t)
  | _ => none

def parameter? : Visited → Option ((String × Marks) × Ty)
  | parameter name marks t => some ((name, marks), t)
  | _ => none

end Visited

/-! ## Literals and words -/

/-- The text of a string literal, from the characters between its quotes: a backslash makes the character behind it,
which is not a line feed, an ordinary one. -/
def unescape : List Char → List Char
  | [] => []
  | '\\' :: c :: cs => if c = '\n' then '\\' :: c :: unescape cs else c :: unescape cs
  | c :: cs => c :: unescape cs

/-- A number literal without its sign. -/
def unsigned (cs : List Char) : List Char := if cs.head? = some '-' then cs.tail else cs

/-- What a number literal denotes, unless it is a whole number with too many digits. -/
def numberValue (cs : List Char) : Option Value :=
  let isNegative := decide (cs.head? = some '-')
  let whole := (unsigned cs).takeWhile (· ≠ '.')
  match (unsigned cs).dropWhile (· ≠ '.') with
  | _ :: fraction =>
    some (.float (Decimal.toFloat isNegative (Decimal.natOf (whole ++ fraction)) (-(fraction.length : Int))))
  | [] => (Decimal.whole? whole).map fun n : Nat => .int (if isNegative then -n else n)

/-- The words that stand for literals. -/
def keywordValues : List (String × Value) := [("true", .bool true), ("false", .bool false), ("null", .null)]

/-- Types are combined, but a single one stands for itself. -/
def combined (f : List Ty → Ty) : List Ty → Ty
  | [t] => t
  | ts => f ts

/-! ## Trees -/

section

variable {m : Type → Type} [Monad m] {α : Type}

/-- What is at a position of a list. -/
def entry (as : List α) (i : Nat) : ExceptT Misfit m α :=
  match as[i]? with
  | some a => return a
  | none => throw .missing

/-- The type at a position. -/
def typeAt (visited : List Visited) (i : Nat) : ExceptT Misfit m Ty := do
  match ← entry visited i with
  | .type t => return t
  | _ => throw .otherKind

def textAt (visited : List Visited) (i : Nat) : ExceptT Misfit m String := do
  match ← entry visited i with
  | .text s => return s
  | _ => throw .otherKind

/-- What a name with type arguments denotes. -/
def Builder.name (b : Builder m) (path : String) (args : List Ty) : m Ty :=
  if args.isEmpty && intrinsicNames.contains path then return .intrinsic (.str path) else b.bind path args

/-- What is made from a tree, by what was made from its children. -/
def assemble (b : Builder m) (t : Tree) (visited : List Visited) : ExceptT Misfit m Visited :=
  match t.label with
  | some .type => entry visited 1
  | some .union => return .type (combined .union (Visited.collectAll Visited.type? visited))
  | some .intersection => return .type (combined .intersection (Visited.collectAll Visited.type? visited))
  | some .suffixed => do
    let first ← typeAt visited 0
    let suffixes ← entry t.children 1
    return .type (suffixes.children.foldl (fun t _ => .array t) first)
  | some .primary => entry visited 0
  | some .function => do
    let parameters := Visited.collectAll Visited.parameter? visited.dropLast
    let result ← typeAt visited (visited.length - 1)
    return .type (← b.inline fun id => functionNodes id parameters result)
  | some .parameter => do
    let name ← textAt visited 1
    let type ← typeAt visited 6
    let mark ← entry t.children 2
    let rest ← entry t.children 0
    return .parameter name ⟨mark.text = "?".toList, rest.text = "...".toList⟩ type
  | some .parenthesized => entry visited 2
  | some .tuple => return .type (.tuple (Visited.collectAll Visited.type? visited))
  | some .object =>
    let members := Visited.collectAll Visited.member? visited
    return .type (← b.inline fun id => objectNodes id members)
  | some .member => do
    let name ← textAt visited 0
    let mark ← entry t.children 1
    let type ← typeAt visited 5
    return .member name (mark.text = "?".toList) type
  | some .operator => do
    let word ← entry t.children 0
    let target ← typeAt visited 2
    return .type (.operator (.str (String.ofList word.text)) target)
  | some .query => do
    let path ← textAt visited 2
    return .type (queried path (← b.bind path []))
  | some .string => return .type (.literal (.str (String.ofList (unescape t.text.tail.dropLast))))
  | some .number =>
    match numberValue t.text with
    | some value => return .type (.literal value)
    | none => return .type (← b.longNumber)
  | some .keyword => do
    let word ← entry t.children 0
    match keywordValues.lookup (String.ofList word.text) with
    | some value => return .type (.literal value)
    | none => throw .missing
  | some .reference => do
    let name ← textAt visited 0
    let args := Visited.collectAll Visited.type? visited.tail
    return .type (← b.name name args)
  | some .path | some .identifier => return .text (String.ofList t.text)
  | _ => return if visited.isEmpty then .tree t else .list visited

mutual

/-- What is made from a tree, its children first. -/
def visit (b : Builder m) : Tree → ExceptT Misfit m Visited
  | .leaf label text => assemble b (.leaf label text) []
  | .node label children => do
    let visited ← visitAll b children
    assemble b (.node label children) visited

def visitAll (b : Builder m) : List Tree → ExceptT Misfit m (List Visited)
  | [] => return []
  | t :: ts => do
    let v ← visit b t
    let vs ← visitAll b ts
    return v :: vs

end

end

end DocTree.TypeExpr
