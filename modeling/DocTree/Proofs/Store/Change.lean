import DocTree.Proofs.Store.Index
import DocTree.Proofs.Store.Reach

/-!
# What a store holds after a change

* `node_addNode`, `node_modifyNode`, `node_addChild` : the nodes after one change;
* `index_modifyIndex` : the index after one;
* `Node.giveChildren` : the node with more children, and what this leaves alone; `Node.limbs` : the
  nodes that a node holds besides its children;
* `Holds s id ns` : the nodes from number `id` on are `ns`; `holds_append`, `holds_addNodes`.
-/

namespace DocTree

def Part.enters : Part → List NodeId
  | .node id => [id]
  | .type t => t.inlines

namespace Node

/-- The node with more children. -/
def giveChildren (n : Node) (ids : List NodeId) : Node :=
  { n with body := n.body.mapChildren (· ++ ids) }

@[simp] theorem giveChildren_body (n : Node) (ids : List NodeId) :
    (n.giveChildren ids).body = n.body.mapChildren (· ++ ids) := rfl

@[simp] theorem giveChildren_nil (n : Node) : n.giveChildren [] = n := by
  obtain ⟨name, kind, parent, body⟩ := n
  cases body <;> simp [giveChildren, Body.mapChildren]

theorem giveChildren_giveChildren (n : Node) (ids ids' : List NodeId) :
    (n.giveChildren ids).giveChildren ids' = n.giveChildren (ids ++ ids') := by
  obtain ⟨name, kind, parent, body⟩ := n
  cases body <;> simp [giveChildren, Body.mapChildren]

theorem erase_giveChildren {n : Node} {id : NodeId} (fresh : id ∉ n.body.children) :
    { n.giveChildren [id] with body := (n.giveChildren [id]).body.mapChildren (·.erase id) } = n := by
  have erased : ∀ ids : List NodeId, id ∉ ids → (ids ++ [id]).erase id = ids := by
    intro ids fresh
    rw [List.erase_append_right _ fresh, List.erase_cons_head, List.append_nil]
  obtain ⟨name, kind, parent, body⟩ := n
  cases body with
  | project children => simp only [giveChildren, Body.mapChildren, erased children fresh]
  | declaration b => simp only [giveChildren, Body.mapChildren, erased b.children fresh]
  | _ => rfl

@[simp] theorem isContainer_mapChildren (b : Body) (f : List NodeId → List NodeId) :
    (b.mapChildren f).isContainer = b.isContainer := by
  cases b <;> rfl

@[simp] theorem mapChildren_eq_declaration {body : Body} {f : List NodeId → List NodeId} :
    (∃ b, body.mapChildren f = .declaration b) ↔ ∃ b, body = .declaration b := by
  cases body <;> simp [Body.mapChildren]

/-- The children are the only parts that a node gains with them. -/
theorem mem_parts_giveChildren {n : Node} {ids : List NodeId} (h : n.body.isContainer = true) {p : Part} :
    p ∈ (n.giveChildren ids).parts ↔ p ∈ n.parts ∨ ∃ id ∈ ids, p = .node id := by
  obtain ⟨name, kind, parent, body⟩ := n
  cases body with
  | project children =>
    simp only [giveChildren, Body.mapChildren, parts, List.map_append, List.mem_append, List.mem_map]
    exact or_congr_right (exists_congr fun _ => and_congr_right fun _ => eq_comm)
  | declaration b =>
    simp only [giveChildren, Body.mapChildren, parts, List.map_append, List.mem_append, List.mem_map,
      Option.toList]
    constructor
    · rintro ((((child | ⟨id, mem, eq⟩) | type) | held) | types)
      · exact Or.inl (Or.inl (Or.inl (Or.inl child)))
      · exact Or.inr ⟨id, mem, eq.symm⟩
      · exact Or.inl (Or.inl (Or.inl (Or.inr type)))
      · exact Or.inl (Or.inl (Or.inr held))
      · exact Or.inl (Or.inr types)
    · rintro ((((child | type) | held) | types) | ⟨id, mem, eq⟩)
      · exact Or.inl (Or.inl (Or.inl (Or.inl child)))
      · exact Or.inl (Or.inl (Or.inr type))
      · exact Or.inl (Or.inr held)
      · exact Or.inr types
      · exact Or.inl (Or.inl (Or.inl (Or.inr ⟨id, mem, eq.symm⟩)))
  | _ => cases h

def limbs (n : Node) : List NodeId :=
  match n.body with
  | .declaration b =>
    b.typeParameters ++ b.signatures ++ b.indexSignatures ++ b.getSignature.toList ++ b.setSignature.toList
  | .signature b => b.parameters ++ b.typeParameters
  | _ => []

theorem limbs_mapChildren (n : Node) (f : List NodeId → List NodeId) :
    ({ n with body := n.body.mapChildren f } : Node).limbs = n.limbs := by
  obtain ⟨name, kind, parent, body⟩ := n
  cases body <;> rfl

@[simp] theorem limbs_giveChildren (n : Node) (ids : List NodeId) : (n.giveChildren ids).limbs = n.limbs :=
  limbs_mapChildren n _

theorem successors_eq (n : Node) : n.successors = n.parts.flatMap Part.enters := by
  unfold successors
  congr 1

theorem flatMap_enters_node (ids : List NodeId) : (ids.map Part.node).flatMap Part.enters = ids := by
  rw [List.flatMap_map]
  exact List.flatMap_singleton' ids

theorem flatMap_enters_type (ts : List Ty) : (ts.map Part.type).flatMap Part.enters = ts.flatMap Ty.inlines :=
  List.flatMap_map ..

/-- What a search goes on to, part by part. -/
theorem mem_successors {n : Node} {id : NodeId} :
    id ∈ n.successors ↔ Part.node id ∈ n.parts ∨ ∃ t, Part.type t ∈ n.parts ∧ id ∈ t.inlines := by
  unfold successors
  rw [List.mem_flatMap]
  constructor
  · rintro ⟨p, mem, here⟩
    cases p with
    | node c => exact Or.inl (List.mem_singleton.1 here ▸ mem)
    | type t => exact Or.inr ⟨t, mem, here⟩
  · rintro (mem | ⟨t, mem, here⟩)
    · exact ⟨.node id, mem, List.mem_singleton_self id⟩
    · exact ⟨.type t, mem, here⟩

/-- The references at a node, part by part. -/
theorem mem_links {n : Node} {link : Link} :
    link ∈ n.links ↔ ∃ t, Part.type t ∈ n.parts ∧ link ∈ t.links := by
  unfold links
  rw [List.mem_flatMap]
  constructor
  · rintro ⟨p, mem, here⟩
    cases p with
    | node c => cases here
    | type t => exact ⟨t, mem, here⟩
  · rintro ⟨t, mem, here⟩
    exact ⟨.type t, mem, here⟩

theorem mem_successors_giveChildren {n : Node} {ids : List NodeId} (h : n.body.isContainer = true) {id : NodeId} :
    id ∈ (n.giveChildren ids).successors ↔ id ∈ n.successors ∨ id ∈ ids := by
  simp only [mem_successors, mem_parts_giveChildren h, Part.node.injEq, exists_eq_right', reduceCtorEq, and_false,
    exists_false, or_false]
  exact or_right_comm

theorem mem_links_giveChildren {n : Node} {ids : List NodeId} (h : n.body.isContainer = true) {link : Link} :
    link ∈ (n.giveChildren ids).links ↔ link ∈ n.links := by
  simp only [mem_links, mem_parts_giveChildren h, reduceCtorEq, and_false, exists_false, or_false]

theorem isComplete_iff {n : Node} : n.isComplete = true ↔ ∀ t, Part.type t ∈ n.parts → t.isComplete = true := by
  unfold isComplete
  rw [List.all_eq_true]
  constructor
  · intro h t mem
    exact h _ mem
  · intro h p mem
    cases p with
    | node c => rfl
    | type t => exact h t mem

/-- A node holds its children and its limbs. -/
theorem node_mem_parts {n : Node} {id : NodeId} :
    Part.node id ∈ n.parts ↔ id ∈ n.body.children ∨ id ∈ n.limbs := by
  have nodes : ∀ {ids : List NodeId}, Part.node id ∈ ids.map Part.node ↔ id ∈ ids := by
    intro ids
    rw [List.mem_map]
    exact ⟨fun ⟨c, mem, eq⟩ => Part.node.inj eq ▸ mem, fun mem => ⟨id, mem, rfl⟩⟩
  have types : ∀ {ts : List Ty}, ¬Part.node id ∈ ts.map Part.type := by
    intro ts mem
    obtain ⟨t, _, eq⟩ := List.mem_map.1 mem
    cases eq
  obtain ⟨name, kind, parent, body⟩ := n
  cases body <;>
    simp only [parts, limbs, Body.children, List.mem_append, nodes, types, or_false, false_or, List.not_mem_nil,
      or_assoc]

/-- A node that loses children gains nothing. -/
theorem mem_parts_mapChildren {n : Node} {f : List NodeId → List NodeId} (sub : ∀ {ids c}, c ∈ f ids → c ∈ ids)
    {p : Part} (mem : p ∈ ({ n with body := n.body.mapChildren f } : Node).parts) : p ∈ n.parts := by
  obtain ⟨name, kind, parent, body⟩ := n
  cases body with
  | project children =>
    obtain ⟨c, held, rfl⟩ := List.mem_map.1 mem
    exact List.mem_map_of_mem (sub held)
  | declaration b =>
    simp only [Body.mapChildren, parts, List.mem_append (s := List.map _ _ ++ _ ++ _),
      List.mem_append (s := List.map _ _ ++ _), List.mem_append (s := List.map _ _)] at mem ⊢
    rcases mem with ((child | type) | limb) | types
    · obtain ⟨c, held, rfl⟩ := List.mem_map.1 child
      exact Or.inl (Or.inl (Or.inl (List.mem_map_of_mem (sub held))))
    · exact Or.inl (Or.inl (Or.inr type))
    · exact Or.inl (Or.inr limb)
    · exact Or.inr types
  | _ => exact mem

theorem mem_parts_of_mem_children {n : Node} {id : NodeId} (h : id ∈ n.body.children) :
    Part.node id ∈ n.parts := node_mem_parts.2 (Or.inl h)

theorem mem_owned_of_mem_children {n : Node} {id : NodeId} (h : id ∈ n.body.children) : id ∈ n.owned := by
  obtain ⟨name, kind, parent, body⟩ := n
  cases body with
  | project children => exact h
  | declaration b => exact List.mem_append_right _ h
  | _ => cases h

theorem mem_owned_of_mem_limbs {n : Node} {id : NodeId} (h : id ∈ n.limbs) : id ∈ n.owned := by
  obtain ⟨name, kind, parent, body⟩ := n
  cases body with
  | declaration b =>
    simp only [limbs, owned, List.mem_append] at h ⊢
    tauto
  | signature b =>
    simp only [limbs, owned, List.mem_append] at h ⊢
    tauto
  | _ => cases h

/-- A node owns its children, its limbs, and the declaration of an inline type. -/
theorem mem_owned_cases {n : Node} {id : NodeId} (h : id ∈ n.owned) :
    id ∈ n.body.children ∨ id ∈ n.limbs ∨ ∃ t, Part.type t ∈ n.parts ∧ id ∈ t.inlines := by
  have inlined : ∀ {type : Option Ty}, id ∈ ofType type → ∃ t ∈ type.toList, id ∈ t.inlines := by
    intro type mem
    unfold ofType at mem
    split at mem
    · exact ⟨_, List.mem_singleton_self _, mem⟩
    · cases mem
  obtain ⟨name, kind, parent, body⟩ := n
  cases body with
  | project children => exact Or.inl h
  | declaration b =>
    simp only [owned, limbs, Body.children, parts, List.mem_append] at h ⊢
    rcases h with (((((held | here) | held) | held) | held) | held) | held
    · tauto
    · obtain ⟨t, mem, inside⟩ := inlined here
      exact Or.inr (Or.inr ⟨t, Or.inl (Or.inl (Or.inr (List.mem_map_of_mem mem))), inside⟩)
    all_goals tauto
  | signature b =>
    rcases List.mem_append.1 h with held | here
    · exact Or.inr (Or.inl (List.mem_append.2 (List.mem_append.1 held).symm))
    · obtain ⟨t, mem, inside⟩ := inlined here
      refine Or.inr (Or.inr ⟨t, List.mem_append_right _ (List.mem_map_of_mem ?_), inside⟩)
      exact List.mem_append_left _ (List.mem_append_left _ (List.mem_append_left _ mem))
  | parameter b =>
    obtain ⟨t, mem, inside⟩ := inlined h
    exact Or.inr (Or.inr ⟨t, List.mem_map_of_mem mem, inside⟩)
  | _ => cases h

theorem mem_owned_giveChildren {n : Node} {ids : List NodeId} {id : NodeId} (h : id ∈ (n.giveChildren ids).owned) :
    id ∈ n.owned ∨ id ∈ ids := by
  obtain ⟨name, kind, parent, body⟩ := n
  cases body with
  | project children => exact List.mem_append.1 h
  | declaration b =>
    simp only [giveChildren, Body.mapChildren, owned, List.mem_append] at h ⊢
    tauto
  | _ => exact Or.inl h

theorem mem_owned_mapChildren {n : Node} {f : List NodeId → List NodeId} {id : NodeId}
    (kept : ∀ {ids}, id ∈ ids → id ∈ f ids) (h : id ∈ n.owned) :
    id ∈ ({ n with body := n.body.mapChildren f } : Node).owned := by
  obtain ⟨name, kind, parent, body⟩ := n
  cases body with
  | project children => exact kept h
  | declaration b =>
    simp only [Body.mapChildren, owned, List.mem_append] at h ⊢
    exact h.imp_right fun held => kept held
  | _ => exact h

theorem owned_mapChildren_subset (n : Node) {f : List NodeId → List NodeId} (sub : ∀ {ids}, f ids ⊆ ids) :
    ({ n with body := n.body.mapChildren f } : Node).owned ⊆ n.owned := by
  intro id mem
  obtain ⟨name, kind, parent, body⟩ := n
  cases body with
  | project children => exact sub mem
  | declaration b =>
    simp only [Body.mapChildren, owned, List.mem_append] at mem ⊢
    exact mem.imp_right fun held => sub held
  | _ => exact mem

end Node

namespace Store

variable {s : Store}

/-! ## Nodes -/

@[simp] theorem size_addNode (s : Store) (n : Node) : (s.addNode n).2.nodes.size = s.nodes.size + 1 :=
  Array.size_push n

@[simp] theorem size_modifyNode (s : Store) (id : NodeId) (f : Node → Node) :
    (s.modifyNode id f).nodes.size = s.nodes.size :=
  Array.size_modify

theorem node_addNode (s : Store) (n : Node) (id : NodeId) :
    (s.addNode n).2.node id = if id = s.nodes.size then n else s.node id := by
  unfold node addNode
  show ((s.nodes.push n)[id]?).getD default = _
  rw [Array.getElem?_push]
  split <;> rfl

theorem node_modifyNode {id : NodeId} (inside : id < s.nodes.size) (f : Node → Node) (id' : NodeId) :
    (s.modifyNode id f).node id' = if id' = id then f (s.node id) else s.node id' := by
  unfold node modifyNode
  show ((s.nodes.modify id f)[id']?).getD default = _
  rw [Array.getElem?_modify]
  by_cases h : id' = id
  · subst h
    rw [if_pos rfl, if_pos rfl, Array.getElem?_eq_getElem inside]
    rfl
  · rw [if_neg fun same => h same.symm, if_neg h]

theorem node_modifyBody {id : NodeId} (inside : id < s.nodes.size) (f : Body → Body) (id' : NodeId) :
    (s.modifyBody id f).node id' =
      if id' = id then { s.node id with body := f (s.node id).body } else s.node id' :=
  node_modifyNode inside _ id'

theorem node_addChild {parent child : NodeId} (inside : parent < s.nodes.size)
    (inside' : child < s.nodes.size) (ne : parent ≠ child) (id : NodeId) :
    (s.addChild parent child).node id =
      if id = parent then (s.node parent).giveChildren [child]
      else if id = child then { s.node child with parent := some parent }
      else s.node id := by
  unfold addChild
  rw [node_modifyBody (by simpa using inside)]
  have before : ∀ id', (({ s with strays := s.strays.freeParent child } : Store).modifyNode child
      fun n => { n with parent := some parent }).node id' =
        if id' = child then { s.node child with parent := some parent } else s.node id' :=
    fun id' => node_modifyNode inside' _ id'
  rw [before, before, if_neg ne]
  rfl

/-! ## Indexes -/

@[simp] theorem index_modifyIndex (s : Store) (project : NodeId) (f : Index → Index) :
    (s.modifyIndex project f).index project = f (s.index project) := by
  show ((s.indexes.insert project (f (s.index project))).find? project).getD default = _
  rw [OrdMap.find?_insert, if_pos rfl]
  rfl

/-! ## Runs of nodes -/

/-- The nodes from number `id` on are `ns`. -/
def Holds (s : Store) (id : NodeId) (ns : List Node) : Prop :=
  ∀ (i : Nat) (h : i < ns.length), s.node (id + i) = ns[i]

theorem holds_nil (s : Store) (id : NodeId) : s.Holds id [] := fun _ h => nomatch h

theorem holds_cons {id : NodeId} {n : Node} {ns : List Node} :
    s.Holds id (n :: ns) ↔ s.node id = n ∧ s.Holds (id + 1) ns := by
  constructor
  · intro h
    refine ⟨h 0 (Nat.zero_lt_succ _), fun i lt => ?_⟩
    rw [Nat.add_assoc, Nat.add_comm 1]
    exact h (i + 1) (Nat.succ_lt_succ lt)
  · rintro ⟨here, rest⟩ i lt
    cases i with
    | zero => exact here
    | succ i =>
      have := rest i (Nat.lt_of_succ_lt_succ lt)
      rwa [Nat.add_assoc, Nat.add_comm 1] at this

theorem holds_append {id : NodeId} {ns ms : List Node} :
    s.Holds id (ns ++ ms) ↔ s.Holds id ns ∧ s.Holds (id + ns.length) ms := by
  induction ns generalizing id with
  | nil => exact ⟨fun h => ⟨holds_nil s id, h⟩, fun h => h.2⟩
  | cons n ns ih =>
    rw [List.cons_append, holds_cons, holds_cons, ih, and_assoc, List.length_cons]
    rw [Nat.add_assoc, Nat.add_comm 1]

/-- What the nodes of a run hold, inline declarations included. -/
def heldFrom (s : Store) (id : NodeId) (count : Nat) : List NodeId :=
  (List.range' id count).flatMap fun id => (s.node id).successors

theorem Holds.heldFrom_eq {id : NodeId} {ns : List Node} (h : s.Holds id ns) :
    s.heldFrom id ns.length = ns.flatMap Node.successors := by
  induction ns generalizing id with
  | nil => rfl
  | cons n ns ih =>
    obtain ⟨here, rest⟩ := holds_cons.1 h
    show (s.node id).successors ++ s.heldFrom (id + 1) ns.length = _
    rw [here, ih rest, List.flatMap_cons]

theorem Holds.exists_of_mem {id : NodeId} {ns : List Node} (h : s.Holds id ns) {n : Node} (mem : n ∈ ns) :
    ∃ id' ∈ List.range' id ns.length, s.node id' = n := by
  obtain ⟨i, lt, rfl⟩ := List.getElem_of_mem mem
  exact ⟨id + i, List.mem_range'_1.2 ⟨Nat.le_add_right id i, Nat.add_lt_add_left lt id⟩, h i lt⟩

theorem Holds.mem_of_range {id id' : NodeId} {ns : List Node} (h : s.Holds id ns)
    (mem : id' ∈ List.range' id ns.length) : s.node id' ∈ ns := by
  obtain ⟨low, high⟩ := List.mem_range'_1.1 mem
  obtain ⟨i, rfl⟩ := Nat.exists_eq_add_of_le low
  have lt : i < ns.length := Nat.lt_of_add_lt_add_left high
  rw [h i lt]
  exact List.getElem_mem lt

end Store

end DocTree
