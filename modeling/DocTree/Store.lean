import DocTree.Node
import DocTree.OrdMap
import DocTree.Strays
import DocTree.Symbol

/-!
# The store

All nodes and symbols ever made, each at the place of its number, and for every project the index
that links references to nodes. Nothing is ever taken out of the two arrays; a node leaves the tree
when no other node holds it, and the documentation when the index forgets it.

An `Index` knows which nodes are listed, which node a symbol is bound to, and the symbols of a node.
`Store.resolve` follows a link: this is the one place where references meet the index, so that
binding a symbol satisfies every reference to it at once.
-/

namespace DocTree

structure Index where
  /-- The nodes the project knows, in the order they were listed. -/
  listed : OrdMap NodeId Unit
  /-- The node that each symbol is bound to. -/
  bound : OrdMap SymbolId NodeId
  /-- The symbols that were bound to each node. -/
  symbols : OrdMap NodeId (List SymbolId)
  deriving Inhabited

namespace Index

def ofProject (project : NodeId) : Index :=
  ⟨OrdMap.empty.insert project (), .empty, .empty⟩

/-- Lists a node. -/
def list (i : Index) (id : NodeId) : Index := { i with listed := i.listed.insert id () }

/-- The symbols of a node. -/
def symbolsOf (i : Index) (id : NodeId) : List SymbolId := (i.symbols.find? id).getD []

def bind (i : Index) (id : NodeId) (symbol : SymbolId) : Index :=
  let known := i.symbolsOf id
  { listed := i.listed.insert id ()
    bound := i.bound.insert symbol id
    symbols := i.symbols.insert id (if symbol ∈ known then known else known ++ [symbol]) }

def register (i : Index) (id : NodeId) : Option SymbolId → Index
  | none => i.list id
  | some symbol => i.bind id symbol

def nodeOf? (i : Index) (symbol : SymbolId) : Option NodeId :=
  (i.bound.find? symbol).filter i.listed.contains

def release (id : NodeId) (bound : OrdMap SymbolId NodeId) (symbol : SymbolId) :
    OrdMap SymbolId NodeId :=
  if bound.find? symbol = some id then bound.erase symbol else bound

def forget (i : Index) (id : NodeId) : Index :=
  { listed := i.listed.erase id
    bound := (i.symbolsOf id).foldl (release id) i.bound
    symbols := i.symbols.erase id }

end Index

/-- All nodes and symbols, the indexes of the projects, and what is out of place. -/
structure Store where
  nodes : Array Node
  symbols : Array Symbol
  indexes : OrdMap NodeId Index
  strays : Strays
  deriving Inhabited

namespace Store

/-- The store without nodes. -/
def empty : Store := ⟨#[], #[], .empty, .empty⟩

/-- The node of a number. -/
def node (s : Store) (id : NodeId) : Node := (s.nodes[id]?).getD default

/-- The symbol of a number. -/
def symbol (s : Store) (id : SymbolId) : Symbol := (s.symbols[id]?).getD default

/-- The index of a project. -/
def index (s : Store) (project : NodeId) : Index := (s.indexes.find? project).getD default

def addNode (s : Store) (n : Node) : NodeId × Store :=
  (s.nodes.size, { s with nodes := s.nodes.push n })

def addNodes (s : Store) (nodes : NodeId → List Node) : NodeId × Store :=
  (s.nodes.size, { s with nodes := s.nodes ++ nodes s.nodes.size })

def addSymbol (s : Store) (symbol : Symbol) : SymbolId × Store :=
  (s.symbols.size, { s with symbols := s.symbols.push symbol })

def modifyNode (s : Store) (id : NodeId) (f : Node → Node) : Store :=
  { s with nodes := s.nodes.modify id f }

def modifyBody (s : Store) (id : NodeId) (f : Body → Body) : Store :=
  s.modifyNode id fun n => { n with body := f n.body }

def modifySymbol (s : Store) (id : SymbolId) (f : Symbol → Symbol) : Store :=
  { s with symbols := s.symbols.modify id f }

def modifyIndex (s : Store) (project : NodeId) (f : Index → Index) : Store :=
  { s with indexes := s.indexes.insert project (f (s.index project)) }

def addProject (s : Store) (name : Value) : NodeId × Store :=
  let (id, s) := s.addNode ⟨name, .project, none, .project []⟩
  (id, { s with indexes := s.indexes.insert id (.ofProject id) })

def register (s : Store) (project id : NodeId) (symbol : Option SymbolId) : Store :=
  s.modifyIndex project (·.register id symbol)

/-- The node that a link leads to, if it is documented. -/
def resolve (s : Store) : Link → Option NodeId
  | .external | .loose _ => none
  | .node project id =>
    match id with
    | .ofNat n => if (s.index project).listed.contains n then some n else none
    | .negSucc _ => none
  | .symbol project symbol => (s.index project).nodeOf? symbol

/-- Whether a node can hold children. -/
def isContainer (s : Store) (id : NodeId) : Bool := (s.node id).body.isContainer

/-- The children of a node. -/
def children (s : Store) (id : NodeId) : List NodeId := (s.node id).body.children

def shownChildren (s : Store) (id : NodeId) : List NodeId :=
  if s.isContainer id then s.children id else (s.strays.children.find? id).getD []

def haveFlags (s : Store) (ids : List NodeId) : Bool := ids.all s.strays.hasFlags

def variant (s : Store) (id : NodeId) : Value :=
  (s.strays.variants.find? id).getD (.str (s.node id).body.variant)

def childrenOfKind (s : Store) (id : NodeId) (mask : Kind) : List NodeId :=
  (s.children id).filter fun child => (s.node child).isKind mask

def addChild (s : Store) (parent child : NodeId) : Store :=
  let s := { s with strays := s.strays.freeParent child }
  (s.modifyNode child fun n => { n with parent := some parent }).modifyBody parent
    (·.mapChildren (· ++ [child]))

def removeChild (s : Store) (parent child : NodeId) : Store :=
  s.modifyBody parent (·.mapChildren (·.erase child))

def display (s : Store) (id : NodeId) : String := (s.node id).display id

/-- Whether a declaration has signatures. -/
def isFunction (s : Store) (id : NodeId) : Bool :=
  match (s.node id).body with
  | .declaration b => !b.signatures.isEmpty
  | _ => false

end Store

end DocTree
