import DocTree.Proofs.Store.Change

/-!
# How a tree grows

* `Enclosed s low high types` : the nodes from `low` up to `high` hold none but the given types, and
  limbs among those behind them; `Enclosed.append`;
* `Sprouts s scope types t` : a child, with all that is in it, was put behind the others of a scope;
* `Grows s t` : no node has lost a part (`refl`, `trans`, `reaches`); `Sprouts.grows`.
-/

namespace DocTree.Store

variable {s t : Store}

theorem isContainer_of_mem_children {id c : NodeId} (mem : c ∈ s.children id) : s.isContainer id = true := by
  unfold children at mem
  unfold isContainer
  cases eq : (s.node id).body with
  | project _ => rfl
  | declaration _ => rfl
  | _ =>
    rw [eq] at mem
    cases mem

/-! ## Closed runs of nodes -/

/-- A limb hangs where it is held, and is no declaration. -/
structure LimbOf (s : Store) (id c : NodeId) : Prop where
  parent : (s.node c).parent = some id
  body : ∀ b, (s.node c).body ≠ .declaration b

/-- The nodes from `low` up to `high` hold none but the given types, and limbs among those behind them. -/
structure Enclosed (s : Store) (low high : NodeId) (types : List Ty) : Prop where
  type : ∀ {id}, low ≤ id → id < high → ∀ {t}, Part.type t ∈ (s.node id).parts → t ∈ types
  limb : ∀ {id}, low ≤ id → id < high → ∀ {c}, c ∈ (s.node id).limbs → id < c ∧ c < high ∧ s.LimbOf id c
  children : ∀ {id}, low ≤ id → id < high → s.children id = []

theorem Enclosed.append {low middle high : NodeId} {types types' : List Ty}
    (h : s.Enclosed low middle types) (h' : s.Enclosed middle high types')
    (le : middle ≤ high) : s.Enclosed low high (types ++ types') where
  type := fun {id} above below t mem => by
    by_cases lt : id < middle
    · exact List.mem_append_left _ (h.type above lt mem)
    · exact List.mem_append_right _ (h'.type (Nat.le_of_not_lt lt) below mem)
  limb := fun {id} above below c mem => by
    by_cases lt : id < middle
    · obtain ⟨above', below', limb⟩ := h.limb above lt mem
      exact ⟨above', Nat.lt_of_lt_of_le below' le, limb⟩
    · exact h'.limb (Nat.le_of_not_lt lt) below mem
  children := fun {id} above below => by
    by_cases lt : id < middle
    · exact h.children above lt
    · exact h'.children (Nat.le_of_not_lt lt) below

/-! ## New children -/

/-- A declaration, with all that is in it, was put behind the children of a scope. -/
structure Sprouts (s : Store) (scope : NodeId) (types : List Ty) (t : Store) : Prop where
  strays : s.strays = .empty → t.strays = .empty
  size : s.nodes.size < t.nodes.size
  same : ∀ {id}, id < s.nodes.size → id ≠ scope → t.node id = s.node id
  widened : t.node scope = (s.node scope).giveChildren [s.nodes.size]
  parent : (t.node s.nodes.size).parent = some scope
  declaration : ∃ b, (t.node s.nodes.size).body = .declaration b
  enclosed : t.Enclosed s.nodes.size t.nodes.size types
  /-- The new nodes hold each other and the inline declarations of the types, each of them once. -/
  once : (t.heldFrom s.nodes.size (t.nodes.size - s.nodes.size)).Perm
    (List.range' (s.nodes.size + 1) (t.nodes.size - s.nodes.size - 1) ++ types.flatMap Ty.inlines)

/-- No node has lost a part. -/
def Grows (s t : Store) : Prop := ∀ (id : NodeId) (p : Part), p ∈ (s.node id).parts → p ∈ (t.node id).parts

theorem Grows.refl (s : Store) : s.Grows s := fun _ _ h => h

theorem Grows.trans {u : Store} (h : s.Grows t) (h' : t.Grows u) : s.Grows u :=
  fun id p here => h' id p (h id p here)

theorem Grows.reaches (h : s.Grows t) {a b : NodeId} (way : s.Reaches a b) : t.Reaches a b := by
  refine Relation.ReflTransGen.mono (fun x y step => ?_) _ _ way
  rcases Node.mem_successors.1 step with held | ⟨u, held, inside⟩
  · exact Node.mem_successors.2 (Or.inl (h _ _ held))
  · exact Node.mem_successors.2 (Or.inr ⟨u, h _ _ held, inside⟩)

theorem parts_of_size_le {id : NodeId} (outside : s.nodes.size ≤ id) : (s.node id).parts = [] := by
  rw [node_of_size_le outside]
  rfl

theorem children_of_size_le {id : NodeId} (outside : s.nodes.size ≤ id) : s.children id = [] := by
  rw [children, node_of_size_le outside]
  rfl

theorem lt_of_mem_parts {id : NodeId} {p : Part} (mem : p ∈ (s.node id).parts) : id < s.nodes.size := by
  by_contra outside
  rw [parts_of_size_le (Nat.le_of_not_lt outside)] at mem
  cases mem

theorem lt_of_isContainer {id : NodeId} (container : s.isContainer id = true) : id < s.nodes.size := by
  by_contra outside
  rw [isContainer, node_of_size_le (Nat.le_of_not_lt outside)] at container
  cases container

theorem lt_of_declaration {id : NodeId} (declaration : ∃ b, (s.node id).body = .declaration b) : id < s.nodes.size := by
  by_contra outside
  rw [node_of_size_le (Nat.le_of_not_lt outside)] at declaration
  exact declaration.elim nofun

namespace Sprouts

variable {scope : NodeId} {types : List Ty}

/-- A node changes in nothing but the children that it is given. -/
theorem gives (h : s.Sprouts scope types t) {id : NodeId} (inside : id < s.nodes.size) :
    ∃ ids, t.node id = (s.node id).giveChildren ids := by
  by_cases here : id = scope
  · exact ⟨_, here ▸ h.widened⟩
  · exact ⟨[], (h.same inside here).trans (Node.giveChildren_nil _).symm⟩

theorem grows (h : s.Sprouts scope types t) (container : s.isContainer scope = true) : s.Grows t := by
  intro id p mem
  by_cases here : id = scope
  · rw [here, h.widened]
    exact (Node.mem_parts_giveChildren container).2 (Or.inl (here ▸ mem))
  · rwa [h.same (lt_of_mem_parts mem) here]

/-- A type that a node holds was there before, or came with the child. -/
theorem type_or_new (h : s.Sprouts scope types t) (container : s.isContainer scope = true) {id : NodeId} {u : Ty}
    (mem : Part.type u ∈ (t.node id).parts) :
    Part.type u ∈ (s.node id).parts ∨ (s.nodes.size ≤ id ∧ u ∈ types) := by
  by_cases here : id = scope
  · rw [here, h.widened] at mem
    rcases (Node.mem_parts_giveChildren container).1 mem with old | ⟨_, _, eq⟩
    · exact Or.inl (here ▸ old)
    · cases eq
  · by_cases inside : id < s.nodes.size
    · exact Or.inl (h.same inside here ▸ mem)
    · have above := Nat.le_of_not_lt inside
      exact Or.inr ⟨above, h.enclosed.type above (lt_of_mem_parts mem) mem⟩

/-- A limb was there before, or came with the child. -/
theorem limb_or_new (h : s.Sprouts scope types t) {id c : NodeId} (mem : c ∈ (t.node id).limbs) :
    c ∈ (s.node id).limbs ∨
      (s.nodes.size ≤ id ∧ id < c ∧ c < t.nodes.size ∧ t.LimbOf id c) := by
  by_cases here : id = scope
  · subst here
    rw [h.widened, Node.limbs_giveChildren] at mem
    exact Or.inl mem
  · by_cases inside : id < s.nodes.size
    · exact Or.inl (h.same inside here ▸ mem)
    · by_cases inside' : id < t.nodes.size
      · exact Or.inr ⟨Nat.le_of_not_lt inside, h.enclosed.limb (Nat.le_of_not_lt inside) inside' mem⟩
      · rw [node_of_size_le (Nat.le_of_not_lt inside')] at mem
        cases mem

theorem children (h : s.Sprouts scope types t) (container : s.isContainer scope = true) (id : NodeId) :
    t.children id = if id = scope then s.children scope ++ [s.nodes.size] else s.children id := by
  by_cases here : id = scope
  · rw [if_pos here, here, Store.children, h.widened]
    exact Body.children_mapChildren container
  · rw [if_neg here]
    by_cases inside : id < s.nodes.size
    · rw [Store.children, h.same inside here]
      rfl
    · rw [children_of_size_le (Nat.le_of_not_lt inside)]
      by_cases inside' : id < t.nodes.size
      · exact h.enclosed.children (Nat.le_of_not_lt inside) inside'
      · exact children_of_size_le (Nat.le_of_not_lt inside')

theorem node_or_new (h : s.Sprouts scope types t) (container : s.isContainer scope = true) {id c : NodeId}
    (mem : Part.node c ∈ (t.node id).parts) : Part.node c ∈ (s.node id).parts ∨ s.nodes.size ≤ c := by
  rcases Node.node_mem_parts.1 mem with mem | mem
  · rw [← Store.children, h.children container] at mem
    split at mem
    · rename_i here
      rcases List.mem_append.1 mem with mem | mem
      · exact Or.inl (here ▸ Node.mem_parts_of_mem_children mem)
      · exact Or.inr (List.mem_singleton.1 mem ▸ Nat.le_refl _)
    · exact Or.inl (Node.mem_parts_of_mem_children mem)
  · rcases h.limb_or_new mem with mem | ⟨above, behind, _⟩
    · exact Or.inl (Node.node_mem_parts.2 (Or.inr mem))
    · exact Or.inr (Nat.le_of_lt (Nat.lt_of_le_of_lt above behind))

theorem isContainer (h : s.Sprouts scope types t) {id : NodeId} (container : s.isContainer id = true) :
    t.isContainer id = true := by
  obtain ⟨ids, eq⟩ := h.gives (lt_of_isContainer container)
  rw [Store.isContainer, eq, Node.giveChildren_body, Node.isContainer_mapChildren]
  exact container

theorem declaration_iff (h : s.Sprouts scope types t) {id : NodeId} (inside : id < s.nodes.size) :
    (∃ b, (t.node id).body = .declaration b) ↔ ∃ b, (s.node id).body = .declaration b := by
  obtain ⟨ids, eq⟩ := h.gives inside
  rw [eq]
  exact Node.mapChildren_eq_declaration

theorem declaration_mono (h : s.Sprouts scope types t) {id : NodeId}
    (declaration : ∃ b, (s.node id).body = .declaration b) : ∃ b, (t.node id).body = .declaration b :=
  (h.declaration_iff (lt_of_declaration declaration)).2 declaration

theorem limbOf_mono (h : s.Sprouts scope types t) {id c : NodeId} (inside : c < s.nodes.size)
    (limb : s.LimbOf id c) : t.LimbOf id c := by
  obtain ⟨ids, eq⟩ := h.gives inside
  refine ⟨by rw [eq]; exact limb.parent, fun b body => ?_⟩
  rw [eq, Node.giveChildren_body] at body
  obtain ⟨b', body⟩ := Node.mapChildren_eq_declaration.1 ⟨b, body⟩
  exact limb.body b' body

theorem parent_same (h : s.Sprouts scope types t) {id : NodeId} (inside : id < s.nodes.size) :
    (t.node id).parent = (s.node id).parent := by
  obtain ⟨ids, eq⟩ := h.gives inside
  rw [eq]
  rfl

end Sprouts

end DocTree.Store
