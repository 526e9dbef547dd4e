import DocTree.Store

/-!
# Walks

A walk visits a node and everything it owns, depth first. Every path through a tree is shorter than
the number of nodes there are, which bounds the depth.

Removing a node from a project forgets every node of the walk and detaches the node from its parent.
-/

namespace DocTree.Store

def owned (s : Store) (id : NodeId) : List NodeId := (s.node id).owned

def walkDepth (s : Store) : Nat → NodeId → List NodeId
  | 0, _ => []
  | depth + 1, id => id :: (s.owned id).flatMap (s.walkDepth depth)

/-- A node and everything below it, depth first. -/
def walk (s : Store) (id : NodeId) : List NodeId := s.walkDepth s.nodes.size id

def detach (s : Store) (id : NodeId) : Store :=
  let s :=
    match (s.node id).parent with
    | some parent => if s.isContainer parent then s.removeChild parent id else s
    | none => s
  { s with strays := s.strays.freeParent id }.modifyNode id fun n => { n with parent := none }

/-- Removes a node and everything below it from a project. -/
def remove (s : Store) (project id : NodeId) : Store :=
  (s.modifyIndex project fun index => (s.walk id).foldl Index.forget index).detach id

end DocTree.Store
