import DocTree.OrdMap
import DocTree.Ty

/-!
# Strays

A user may put something into a node that has no place there: children below a node that cannot hold
any, a parent that is no node, a value instead of a kind or of the word for a variant. The nodes
stay what they are, and what was put there is kept in tables of its own. The library itself puts
nothing into them.
-/

namespace DocTree

/-- What was put where it has no place. -/
structure Strays where
  /-- Nodes below nodes that cannot hold children. They are shown, and found by nothing else. -/
  children : OrdMap NodeId (List NodeId)
  /-- The nodes whose parent is something that is no node. -/
  parents : OrdMap NodeId Unit
  kinds : OrdMap NodeId Value
  variants : OrdMap NodeId Value
  deriving Inhabited

namespace Strays

/-- Nothing is out of place. -/
def empty : Strays := ⟨.empty, .empty, .empty, .empty⟩

def giveChildren (s : Strays) (id : NodeId) (children : List NodeId) : Strays :=
  { s with children := s.children.insert id children }

def giveParent (s : Strays) (id : NodeId) : Strays :=
  { s with parents := s.parents.insert id () }

def freeParent (s : Strays) (id : NodeId) : Strays := { s with parents := s.parents.erase id }

def giveKind (s : Strays) (id : NodeId) (kind : Value) : Strays :=
  { s with kinds := s.kinds.insert id kind }

def giveVariant (s : Strays) (id : NodeId) (variant : Value) : Strays :=
  { s with variants := s.variants.insert id variant }

def hasParent (s : Strays) (id : NodeId) : Bool := s.parents.contains id

/-- Whether the kind of a node is a kind, so that it has a label. -/
def hasLabel (s : Strays) (id : NodeId) : Bool := (s.kinds.find? id).isNone

def hasFlags (s : Strays) (id : NodeId) : Bool :=
  match s.kinds.find? id with
  | none | some (.int _) | some (.bool _) => true
  | _ => false

@[simp] theorem hasParent_empty (id : NodeId) : empty.hasParent id = false := rfl

@[simp] theorem hasLabel_empty (id : NodeId) : empty.hasLabel id = true := rfl

@[simp] theorem hasFlags_empty (id : NodeId) : empty.hasFlags id = true := rfl

end Strays

end DocTree
