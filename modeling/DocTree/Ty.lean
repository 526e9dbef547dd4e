import DocTree.Value

/-!
# Types

The types attached to the nodes of a documentation tree. Two shapes matter to everything else: a
`reference` names a symbol or a node and is resolved only when asked, and an `inline` type is an
object or function type described by a declaration of its own. All others hold further types. Names,
marks and texts inside types are values; types in documents have strings and truth values there.
A type built from parts may lack some: `absent` takes the place of a part that is not there. No type
that is read from text lacks any.

`nested` lists a type and all types inside it, outermost first, in the order written; inline
declarations are not entered. What a type refers to and which declarations it holds are read off
this one list.
-/

namespace DocTree

/-- Nodes are numbered in order of creation. -/
abbrev NodeId := Nat

/-- Symbols are numbered in order of creation. -/
abbrev SymbolId := Nat

/-- What a reference points at. -/
inductive Link where
  /-- Nothing that could be documented. -/
  | external
  /-- A node, by its number, which may be that of no node at all. -/
  | node (project : NodeId) (id : Int)
  /-- A symbol, through the index of a project. -/
  | symbol (project : NodeId) (symbol : SymbolId)
  /-- A symbol, through no index: no node ever stands for it. -/
  | loose (symbol : SymbolId)
  deriving Repr, DecidableEq

/-- A type. -/
inductive Ty where
  | intrinsic (name : Value)
  | literal (value : Value)
  /-- A type that could not be described; its text is kept. -/
  | unknown (name : Value)
  | reference (name : Value) (link : Link) (args : List Ty) (package : Value)
  | inline (declaration : NodeId)
  | array (element : Ty)
  | union (types : List Ty)
  | intersection (types : List Ty)
  | tuple (elements : List Ty)
  | namedMember (name isOptional : Value) (element : Ty)
  | optional (element : Ty)
  | rest (element : Ty)
  | conditional (check bound whenTrue whenFalse : Ty)
  | indexedAccess (object index : Ty)
  | inferred (name : Value) (constraint : Option Ty)
  | mapped (parameter : Value) (domain body : Ty) (newName : Option Ty)
  | predicate (name asserts : Value) (target : Option Ty)
  | query (target : Ty)
  | operator (name : Value) (target : Ty)
  | template (head : Value) (tail : List (Ty × Value))
  /-- Nothing, where a type should be. -/
  | absent

namespace Ty

instance : Inhabited Ty := ⟨.intrinsic (.str "any")⟩

/-- A reference to something outside of the documentation. -/
def outside (name : String) : Ty := .reference (.str name) .external [] .null

/-- The word for the shape of a type. -/
def tag : Ty → String
  | intrinsic _ => "intrinsic"
  | literal _ => "literal"
  | unknown _ => "unknown"
  | reference .. => "reference"
  | inline _ => "reflection"
  | array _ => "array"
  | union _ => "union"
  | intersection _ => "intersection"
  | tuple _ => "tuple"
  | namedMember .. => "namedTupleMember"
  | optional _ => "optional"
  | rest _ => "rest"
  | conditional .. => "conditional"
  | indexedAccess .. => "indexedAccess"
  | inferred .. => "inferred"
  | mapped .. => "mapped"
  | predicate .. => "predicate"
  | query _ => "query"
  | operator .. => "typeOperator"
  | template .. => "templateLiteral"
  | absent => ""

/-- The types directly inside a type, in the order written. -/
def children : Ty → List Ty
  | intrinsic _ | literal _ | unknown _ | inline _ | absent => []
  | reference _ _ args _ => args
  | array t | optional t | rest t | query t | operator _ t | namedMember _ _ t => [t]
  | union ts | intersection ts | tuple ts => ts
  | conditional check bound whenTrue whenFalse => [check, bound, whenTrue, whenFalse]
  | indexedAccess object index => [object, index]
  | inferred _ constraint => constraint.toList
  | mapped _ domain body newName => domain :: body :: newName.toList
  | predicate _ _ target => target.toList
  | template _ tail => tail.map Prod.fst

mutual

/-- A type and the types inside it, outermost first. -/
def nested : Ty → List Ty
  | t@(intrinsic _) | t@(literal _) | t@(unknown _) | t@(inline _) | t@absent => [t]
  | t@(reference _ _ args _) => t :: nestedAll args
  | t@(array e) | t@(optional e) | t@(rest e) | t@(query e) | t@(operator _ e)
  | t@(namedMember _ _ e) => t :: nested e
  | t@(union ts) | t@(intersection ts) | t@(tuple ts) => t :: nestedAll ts
  | t@(conditional a b c d) => t :: (nested a ++ nested b ++ nested c ++ nested d)
  | t@(indexedAccess a b) => t :: (nested a ++ nested b)
  | t@(inferred _ none) | t@(predicate _ _ none) => [t]
  | t@(inferred _ (some e)) | t@(predicate _ _ (some e)) => t :: nested e
  | t@(mapped _ a b none) => t :: (nested a ++ nested b)
  | t@(mapped _ a b (some c)) => t :: (nested a ++ nested b ++ nested c)
  | t@(template _ tail) => t :: nestedTail tail

def nestedAll : List Ty → List Ty
  | [] => []
  | t :: ts => nested t ++ nestedAll ts

def nestedTail : List (Ty × Value) → List Ty
  | [] => []
  | (t, _) :: ts => nested t ++ nestedTail ts

end

theorem nestedAll_eq_flatMap (ts : List Ty) : nestedAll ts = ts.flatMap nested := by
  induction ts with
  | nil => rfl
  | cons t ts ih => rw [nestedAll, ih, List.flatMap_cons]

theorem nestedTail_eq_flatMap (ts : List (Ty × Value)) :
    nestedTail ts = (ts.map Prod.fst).flatMap nested := by
  induction ts with
  | nil => rfl
  | cons t ts ih => rw [nestedTail, ih, List.map_cons, List.flatMap_cons]

theorem nested_eq (t : Ty) : t.nested = t :: t.children.flatMap nested := by
  cases t with
  | inferred _ c => cases c <;> simp [nested, children]
  | predicate _ _ c => cases c <;> simp [nested, children]
  | mapped _ _ _ c => cases c <;> simp [nested, children]
  | _ => simp [nested, children, nestedAll_eq_flatMap, nestedTail_eq_flatMap]

def isAbsent : Ty → Bool
  | absent => true
  | _ => false

/-- The types in the lists of a type. -/
def items : Ty → List Ty
  | reference _ _ ts _ | union ts | intersection ts | tuple ts => ts
  | template _ tail => tail.map Prod.fst
  | _ => []

/-- Whether a type can be gone through: nothing is absent inside. -/
def isComplete (t : Ty) : Bool := t.nested.all fun u => !u.isAbsent

/-- Whether a type can be written: nothing is absent in the lists inside it. What is absent
elsewhere is left out. -/
def isWritable (t : Ty) : Bool := t.nested.all fun u => u.items.all fun item => !item.isAbsent

/-- The references in a type: where they point, in the order written. -/
def links (t : Ty) : List Link :=
  t.nested.filterMap fun
    | reference _ link _ _ => some link
    | _ => none

def inlines (t : Ty) : List NodeId :=
  t.nested.filterMap fun
    | inline declaration => some declaration
    | _ => none

theorem links_eq (t : Ty) :
    t.links = (match t with | reference _ link _ _ => [link] | _ => []) ++ t.children.flatMap links := by
  unfold links
  rw [nested_eq, List.filterMap_cons, List.filterMap_flatMap]
  cases t <;> rfl

theorem inlines_eq (t : Ty) :
    t.inlines = (match t with | inline id => [id] | _ => []) ++ t.children.flatMap inlines := by
  unfold inlines
  rw [nested_eq, List.filterMap_cons, List.filterMap_flatMap]
  cases t <;> rfl

end Ty

end DocTree
