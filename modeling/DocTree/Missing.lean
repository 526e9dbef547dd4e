import DocTree.Error
import DocTree.Store

/-!
# Undocumented symbols

`Store.missing` finds the symbols that the part of the tree below a node refers to and that no node
documents, in the order in which they are first met. The search is breadth first: it goes level by
level, at each node through `Node.parts`, so that inline declarations are entered like any other
node. It changes nothing. It fails where a type is absent; `Store.isSearchable` says whether that is
so, and `Store.search` is the search with this check in front.
-/

namespace DocTree

/-- The distinct members of a list, each at its first place. -/
def firsts [DecidableEq α] : List α → List α
  | [] => []
  | a :: as => a :: (firsts as).filter (· ≠ a)

theorem mem_firsts [DecidableEq α] {a : α} {as : List α} : a ∈ firsts as ↔ a ∈ as := by
  induction as with
  | nil => simp [firsts]
  | cons b bs ih =>
    by_cases h : a = b
    · simp [firsts, h]
    · simp [firsts, h, ih]

theorem nodup_firsts [DecidableEq α] (as : List α) : (firsts as).Nodup := by
  induction as with
  | nil => exact List.nodup_nil
  | cons b bs ih => exact List.nodup_cons.2 ⟨by simp, ih.sublist List.filter_sublist⟩

namespace Store

def levels (s : Store) : Nat → List NodeId → List NodeId
  | 0, _ => []
  | _ + 1, [] => []
  | depth + 1, level => level ++ s.levels depth (level.flatMap fun id => (s.node id).successors)

/-- The nodes that a search from a node visits. -/
def reached (s : Store) (root : NodeId) : List NodeId := s.levels (s.nodes.size + 1) [root]

/-- The symbol that a link names, if no node documents it. -/
def missingSymbol (s : Store) (link : Link) : Option SymbolId :=
  match link with
  | .symbol _ symbol | .loose symbol => if (s.resolve link).isNone then some symbol else none
  | _ => none

/-- The symbols referred to below a node that no node documents. -/
def missing (s : Store) (root : NodeId) : List SymbolId :=
  firsts (((s.reached root).flatMap fun id => (s.node id).links).filterMap s.missingSymbol)

def isSearchable (s : Store) (root : NodeId) : Bool :=
  (s.reached root).all fun id => (s.node id).isComplete

/-- The symbols referred to below a node that no node documents, unless a type is absent there. -/
def search (s : Store) (root : NodeId) : Except Error (List SymbolId) :=
  if s.isSearchable root then .ok (s.missing root) else .error .lacksFeature

end Store

end DocTree
