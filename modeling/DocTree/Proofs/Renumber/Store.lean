import DocTree.Missing
import DocTree.Proofs.Renumber.Data
import DocTree.Proofs.Store.Index

/-!
# Stores that say the same under other numbers

Two stores mirror each other if one becomes the other when nodes and symbols get new numbers. Numbers that are free in
both stay, so that what is added to both gets the same number in both.

* `OrdMap.Mirror`, `Index.Mirror` : tables and indexes that say the same; kept by `insert`, `erase`, `bind`, `forget`;
* `Store.Mirror` : stores that say the same; kept by `addNode`, `modifyNode`, `addChild`, `register`, `remove`;
* `Mirror.walk` : a walk meets the same nodes, renumbered.
-/

namespace DocTree

variable {ρ : Renumbering}

/-! ## Tables -/

namespace OrdMap

variable {α β γ : Type} [DecidableEq α]

/-- A table that has the same values under other keys, changed by `f`. -/
def Mirror (σ : Equiv.Perm α) (f : β → γ) (m : OrdMap α β) (m' : OrdMap α γ) : Prop :=
  ∀ k, m'.find? (σ k) = (m.find? k).map f

variable {σ : Equiv.Perm α} {f : β → γ} {m : OrdMap α β} {m' : OrdMap α γ}

theorem mirror_empty : Mirror σ f (empty : OrdMap α β) empty := fun _ => rfl

theorem Mirror.insert (h : Mirror σ f m m') (k : α) {v : β} {v' : γ} (same : v' = f v) :
    Mirror σ f (m.insert k v) (m'.insert (σ k) v') := by
  intro k'
  rw [find?_insert, find?_insert, h k', same]
  by_cases eq : k' = k
  · rw [if_pos eq, if_pos (congrArg σ eq), Option.map_some]
  · rw [if_neg eq, if_neg fun same => eq (σ.injective same)]

theorem Mirror.erase (h : Mirror σ f m m') (k : α) : Mirror σ f (m.erase k) (m'.erase (σ k)) := by
  intro k'
  rw [find?_erase, find?_erase, h k']
  by_cases eq : k' = k
  · rw [if_pos eq, if_pos (congrArg σ eq), Option.map_none]
  · rw [if_neg eq, if_neg fun same => eq (σ.injective same)]

theorem Mirror.contains (h : Mirror σ f m m') (k : α) : m'.contains (σ k) = m.contains k := by
  rw [Bool.eq_iff_iff, contains_iff, contains_iff, h k, Option.isSome_map]

end OrdMap

/-! ## Indexes -/

/-- An index that knows the same under other numbers. -/
structure Index.Mirror (ρ : Renumbering) (i j : Index) : Prop where
  listed : i.listed.Mirror ρ.node id j.listed
  bound : i.bound.Mirror ρ.symbol ρ.node j.bound
  symbols : i.symbols.Mirror ρ.node (List.map ρ.symbol) j.symbols

namespace Index

variable {i j : Index}

theorem Mirror.symbolsOf (h : i.Mirror ρ j) (id : NodeId) : j.symbolsOf (ρ.node id) = (i.symbolsOf id).map ρ.symbol := by
  unfold Index.symbolsOf
  rw [h.symbols id]
  cases i.symbols.find? id <;> rfl

theorem Mirror.nodeOf? (h : i.Mirror ρ j) (X : SymbolId) : j.nodeOf? (ρ.symbol X) = (i.nodeOf? X).map ρ.node := by
  unfold Index.nodeOf?
  rw [h.bound X]
  cases i.bound.find? X with
  | none => rfl
  | some id =>
    rw [Option.map_some, Option.filter_some, Option.filter_some, h.listed.contains]
    split <;> rfl

theorem mirror_ofProject (project : NodeId) : (ofProject project).Mirror ρ (ofProject (ρ.node project)) :=
  ⟨OrdMap.mirror_empty.insert project rfl, OrdMap.mirror_empty, OrdMap.mirror_empty⟩

theorem Mirror.list (h : i.Mirror ρ j) (id : NodeId) : (i.list id).Mirror ρ (j.list (ρ.node id)) :=
  ⟨h.listed.insert id rfl, h.bound, h.symbols⟩

theorem Mirror.bind (h : i.Mirror ρ j) (id : NodeId) (X : SymbolId) :
    (i.bind id X).Mirror ρ (j.bind (ρ.node id) (ρ.symbol X)) := by
  refine ⟨h.listed.insert id rfl, h.bound.insert X rfl, h.symbols.insert id ?_⟩
  rw [h.symbolsOf]
  simp only [List.mem_map_of_injective ρ.symbol.injective]
  split
  · rfl
  · rw [List.map_append, List.map_singleton]

theorem Mirror.register (h : i.Mirror ρ j) (id : NodeId) (X : Option SymbolId) :
    (i.register id X).Mirror ρ (j.register (ρ.node id) (X.map ρ.symbol)) := by
  cases X with
  | none => exact h.list id
  | some X => exact h.bind id X

theorem Mirror.forget (h : i.Mirror ρ j) (id : NodeId) : (i.forget id).Mirror ρ (j.forget (ρ.node id)) := by
  refine ⟨h.listed.erase id, fun X => ?_, h.symbols.erase id⟩
  unfold Index.forget
  rw [find?_foldl_release, find?_foldl_release, h.bound X, h.symbolsOf]
  have bound : (i.bound.find? X).map ρ.node = some (ρ.node id) ↔ i.bound.find? X = some id := by
    rw [Option.map_eq_some_iff]
    exact ⟨fun ⟨_, eq, same⟩ => ρ.node.injective same ▸ eq, fun eq => ⟨id, eq, rfl⟩⟩
  simp only [List.mem_map_of_injective ρ.symbol.injective, bound]
  split <;> rfl

theorem Mirror.foldl_forget (h : i.Mirror ρ j) (ids : List NodeId) :
    (ids.foldl Index.forget i).Mirror ρ ((ids.map ρ.node).foldl Index.forget j) := by
  induction ids generalizing i j with
  | nil => exact h
  | cons id ids ih => exact ih (h.forget id)

end Index

/-! ## Stores -/

/-- A store that holds the same under other numbers. -/
structure Store.Mirror (ρ : Renumbering) (s t : Store) : Prop where
  strays : s.strays = .empty
  strays' : t.strays = .empty
  size : t.nodes.size = s.nodes.size
  count : t.symbols.size = s.symbols.size
  free : ∀ {id}, s.nodes.size ≤ id → ρ.node id = id
  node : ∀ id, t.node (ρ.node id) = (s.node id).renumber ρ
  symbol : ∀ X, t.symbol (ρ.symbol X) = (s.symbol X).renumber ρ
  index : ∀ project, (s.index project).Mirror ρ (t.index (ρ.node project))

namespace Store

variable {s t : Store}

theorem Mirror.lt_iff (h : s.Mirror ρ t) (id : NodeId) : ρ.node id < t.nodes.size ↔ id < s.nodes.size := by
  rw [h.size, ← not_iff_not, Nat.not_lt, Nat.not_lt]
  exact ⟨fun free => ρ.node.injective (h.free free) ▸ free, fun free => (h.free free).symm ▸ free⟩

theorem Mirror.name (h : s.Mirror ρ t) (id : NodeId) : (t.node (ρ.node id)).name = (s.node id).name := by
  rw [h.node]
  rfl

theorem Mirror.kind (h : s.Mirror ρ t) (id : NodeId) : (t.node (ρ.node id)).kind = (s.node id).kind := by
  rw [h.node]
  rfl

theorem Mirror.isContainer (h : s.Mirror ρ t) (id : NodeId) : t.isContainer (ρ.node id) = s.isContainer id := by
  rw [Store.isContainer, h.node]
  exact Node.isContainer_renumber ρ _

theorem Mirror.children (h : s.Mirror ρ t) (id : NodeId) : t.children (ρ.node id) = (s.children id).map ρ.node := by
  rw [Store.children, h.node]
  exact Node.children_renumber ρ _

theorem Mirror.nodeOf? (h : s.Mirror ρ t) (project : NodeId) (X : SymbolId) :
    (t.index (ρ.node project)).nodeOf? (ρ.symbol X) = ((s.index project).nodeOf? X).map ρ.node :=
  (h.index project).nodeOf? X

/-! ### Nodes -/

theorem node_modifyNode_ite (s : Store) (id : NodeId) (f : Node → Node) (id' : NodeId) :
    (s.modifyNode id f).node id' = if id' = id ∧ id < s.nodes.size then f (s.node id) else s.node id' := by
  by_cases inside : id < s.nodes.size
  · rw [node_modifyNode inside]
    simp only [inside, and_true]
  · rw [if_neg fun both => inside both.2]
    unfold node modifyNode
    show ((s.nodes.modify id f)[id']?).getD default = _
    rw [Array.getElem?_modify]
    split
    · rename_i same
      rw [← same, Array.getElem?_eq_none (Nat.le_of_not_lt inside)]
      rfl
    · rfl

theorem Mirror.addNode (h : s.Mirror ρ t) (n : Node) : (s.addNode n).2.Mirror ρ (t.addNode (n.renumber ρ)).2 := by
  refine ⟨h.strays, h.strays', ?_, h.count, fun {id} above => ?_, fun id => ?_, h.symbol, h.index⟩
  · rw [size_addNode, size_addNode, h.size]
  · rw [size_addNode] at above
    exact h.free (Nat.le_of_succ_le above)
  · rw [node_addNode, node_addNode, h.size, h.node]
    have here : ρ.node id = s.nodes.size ↔ id = s.nodes.size := by
      rw [← h.free (Nat.le_refl s.nodes.size)]
      exact ρ.node.injective.eq_iff.trans (by rw [h.free (Nat.le_refl _)])
    simp only [here]
    split <;> rfl

theorem Mirror.modifyNode (h : s.Mirror ρ t) (id : NodeId) {f f' : Node → Node}
    (same : ∀ n, f' (n.renumber ρ) = (f n).renumber ρ) : (s.modifyNode id f).Mirror ρ (t.modifyNode (ρ.node id) f') := by
  refine ⟨h.strays, h.strays', ?_, h.count, fun {id} above => ?_, fun id' => ?_, h.symbol, h.index⟩
  · rw [size_modifyNode, size_modifyNode, h.size]
  · rw [size_modifyNode] at above
    exact h.free above
  · rw [node_modifyNode_ite, node_modifyNode_ite, h.node, h.node, same]
    simp only [ρ.node.injective.eq_iff, h.lt_iff]
    split <;> rfl

theorem Mirror.modifyBody (h : s.Mirror ρ t) (id : NodeId) {f f' : Body → Body}
    (same : ∀ b, f' (b.renumber ρ) = (f b).renumber ρ) : (s.modifyBody id f).Mirror ρ (t.modifyBody (ρ.node id) f') :=
  h.modifyNode id fun n => by
    show ({ n with parent := n.parent.map ρ.node, body := f' (n.body.renumber ρ) } : Node) = _
    rw [same]
    rfl

theorem Mirror.setBody (h : s.Mirror ρ t) {id id' : NodeId} (here : id' = ρ.node id) {b b' : Body}
    (same : b' = b.renumber ρ) : (s.modifyBody id fun _ => b).Mirror ρ (t.modifyBody id' fun _ => b') :=
  here ▸ h.modifyBody id fun _ => same

theorem Mirror.mapChildren (h : s.Mirror ρ t) (id : NodeId) {f f' : List NodeId → List NodeId}
    (same : ∀ ids, f' (ids.map ρ.node) = (f ids).map ρ.node) :
    (s.modifyBody id (·.mapChildren f)).Mirror ρ (t.modifyBody (ρ.node id) (·.mapChildren f')) :=
  h.modifyBody id fun b => Node.mapChildren_renumber ρ same b

theorem Mirror.setParent (h : s.Mirror ρ t) (id : NodeId) (parent : Option NodeId) :
    (s.modifyNode id fun n => { n with parent := parent }).Mirror ρ
      (t.modifyNode (ρ.node id) fun n => { n with parent := parent.map ρ.node }) :=
  h.modifyNode id fun _ => rfl

/-- No parent is out of place, so none is freed. -/
theorem Mirror.freeParent (h : s.Mirror ρ t) (id : NodeId) :
    Mirror ρ { s with strays := s.strays.freeParent id } { t with strays := t.strays.freeParent (ρ.node id) } := by
  refine ⟨?_, ?_, h.size, h.count, h.free, h.node, h.symbol, h.index⟩
  · show s.strays.freeParent id = .empty
    rw [h.strays]
    rfl
  · show t.strays.freeParent (ρ.node id) = .empty
    rw [h.strays']
    rfl

theorem Mirror.addChild (h : s.Mirror ρ t) (parent child : NodeId) :
    (s.addChild parent child).Mirror ρ (t.addChild (ρ.node parent) (ρ.node child)) := by
  refine ((h.freeParent child).setParent child (some parent)).mapChildren parent fun ids => ?_
  rw [List.map_append, List.map_singleton]

/-! ### Indexes -/

theorem index_modifyIndex_ite (s : Store) (project : NodeId) (f : Index → Index) (project' : NodeId) :
    (s.modifyIndex project f).index project' = if project' = project then f (s.index project) else s.index project' := by
  show ((s.indexes.insert project (f (s.index project))).find? project').getD default = _
  rw [OrdMap.find?_insert]
  split <;> rfl

theorem Mirror.modifyIndex (h : s.Mirror ρ t) (project : NodeId) {f f' : Index → Index}
    (same : ∀ {i j}, i.Mirror ρ j → (f i).Mirror ρ (f' j)) :
    (s.modifyIndex project f).Mirror ρ (t.modifyIndex (ρ.node project) f') := by
  refine ⟨h.strays, h.strays', h.size, h.count, h.free, h.node, h.symbol, fun project' => ?_⟩
  rw [index_modifyIndex_ite, index_modifyIndex_ite]
  simp only [ρ.node.injective.eq_iff]
  split
  · exact same (h.index project)
  · exact h.index project'

theorem Mirror.register (h : s.Mirror ρ t) (project id : NodeId) (X : Option SymbolId) :
    (s.register project id X).Mirror ρ (t.register (ρ.node project) (ρ.node id) (X.map ρ.symbol)) :=
  h.modifyIndex project fun same => same.register id X

/-! ### Walks -/

theorem Mirror.walkDepth (h : s.Mirror ρ t) (depth : Nat) (id : NodeId) :
    t.walkDepth depth (ρ.node id) = (s.walkDepth depth id).map ρ.node := by
  induction depth generalizing id with
  | zero => rfl
  | succ depth ih =>
    rw [Store.walkDepth, Store.walkDepth, owned, owned, h.node, Node.owned_renumber, List.map_cons, List.flatMap_map,
      List.map_flatMap]
    exact congrArg _ (List.flatMap_congr fun id _ => ih id)

theorem Mirror.walk (h : s.Mirror ρ t) (id : NodeId) : t.walk (ρ.node id) = (s.walk id).map ρ.node := by
  rw [Store.walk, h.size]
  exact h.walkDepth _ id

theorem map_erase_node (ids : List NodeId) (id : NodeId) :
    (ids.map ρ.node).erase (ρ.node id) = (ids.erase id).map ρ.node := by
  rw [List.map_erase ρ.node.injective]

theorem Mirror.detach (h : s.Mirror ρ t) (id : NodeId) : (s.detach id).Mirror ρ (t.detach (ρ.node id)) := by
  unfold Store.detach
  rw [h.node, Node.parent_renumber]
  cases (s.node id).parent with
  | none => exact (h.freeParent id).setParent id none
  | some parent =>
    simp only [Option.map_some, h.isContainer]
    split
    · have cut : (s.removeChild parent id).Mirror ρ (t.removeChild (ρ.node parent) (ρ.node id)) :=
        h.mapChildren parent fun ids => map_erase_node ids id
      exact (cut.freeParent id).setParent id none
    · exact (h.freeParent id).setParent id none

theorem Mirror.remove (h : s.Mirror ρ t) (project id : NodeId) :
    (s.remove project id).Mirror ρ (t.remove (ρ.node project) (ρ.node id)) := by
  unfold Store.remove
  rw [h.walk]
  exact (h.modifyIndex project fun same => same.foldl_forget (s.walk id)).detach id

end Store

end DocTree
