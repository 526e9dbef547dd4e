import DocTree.Proofs.Workspace.Sound

/-!
# What a search finds in a sound workspace

* `Sound.mem_missing_iff` : a symbol is missing below a node if something that a search from there
  comes to refers to it, and it has no node;
* `Layout.lt_of_reaches` : a search comes to nodes of the store only;
* `Layout.eq_of_reaches` : a search that starts at a child of the project comes to no other one;
* `Store.Reaches.of_same` : two trees that agree on what a search comes to in one of them.
-/

namespace DocTree

variable {g : Ground} {s t : Store} {w : Workspace} {symbol : SymbolId} {a b : NodeId}

theorem Store.Reaches.of_same (way : t.Reaches a b) (same : ∀ id, s.Reaches a id → t.node id = s.node id) :
    s.Reaches a b := by
  induction way with
  | refl => exact .refl a
  | @tail x y _ step ih => exact ih.trans (.single (same x ih ▸ step))

namespace Layout

theorem successor (h : Layout g s) (step : b ∈ (s.node a).successors) :
    (g.Proper a ∧ g.base ≤ b ∧ b < s.nodes.size ∧ (s.node b).parent = some a) ∨ (b < g.base ∧ b ≠ g.project) := by
  rcases Node.mem_successors.1 step with held | ⟨u, held, inline⟩
  · by_cases proper : g.Proper a
    · exact Or.inl ⟨proper, h.held proper held⟩
    · have improper := h.inline proper held
      exact Or.inr ⟨Nat.lt_of_not_le fun above => improper (Or.inr above), fun eq => improper (Or.inl eq)⟩
  · exact Or.inr ((h.type held).inlines inline)

theorem lt_of_reaches (h : Layout g s) (way : s.Reaches a b) (inside : a < s.nodes.size) : b < s.nodes.size := by
  rcases Relation.ReflTransGen.cases_tail way with rfl | ⟨x, _, step⟩
  · exact inside
  · rcases h.successor step with ⟨_, _, below, _⟩ | ⟨below, _⟩
    · exact below
    · exact Nat.lt_of_lt_of_le below h.base_le

theorem ne_project_of_reaches (h : Layout g s) (way : s.Reaches a b) (other : a ≠ g.project) : b ≠ g.project := by
  rcases Relation.ReflTransGen.cases_tail way with rfl | ⟨x, _, step⟩
  · exact other
  · rcases h.successor step with ⟨_, above, _⟩ | ⟨_, ne⟩
    · exact h.ne_project above
    · exact ne

theorem eq_of_reaches (h : Layout g s) (way : s.Reaches a b) (first : a ∈ s.children g.project)
    (last : b ∈ s.children g.project) : b = a := by
  obtain ⟨above, _, parent, _⟩ := h.child (Or.inl rfl) last
  rcases Relation.ReflTransGen.cases_tail way with eq | ⟨x, before, step⟩
  · exact eq
  · rcases h.successor step with ⟨_, _, _, parent'⟩ | ⟨below, _⟩
    · rw [parent] at parent'
      cases parent'
      exact absurd rfl (h.ne_project_of_reaches before (h.ne_project (h.child (Or.inl rfl) first).1))
    · exact absurd below (Nat.not_lt_of_le above)

theorem improper_of_reaches (h : Layout g s) (way : s.Reaches a b) (improper : ¬g.Proper a) : ¬g.Proper b := by
  induction way with
  | refl => exact improper
  | @tail x y _ step ih =>
    rcases h.successor step with ⟨proper, _⟩ | ⟨below, ne⟩
    · exact absurd proper ih
    · rintro (eq | above)
      · exact ne eq
      · exact absurd below (Nat.not_lt_of_le above)

theorem lt_base_of_improper {id : NodeId} (improper : ¬g.Proper id) : id < g.base :=
  Nat.lt_of_not_le fun above => improper (Or.inr above)

end Layout

/-- What is missing below a node: what is referred to there and has no node. -/
theorem Sound.mem_missing_iff (h : Sound g w) {root : NodeId} : symbol ∈ w.store.missing root ↔
    (∃ id, w.store.Reaches root id ∧ Link.symbol g.project symbol ∈ (w.store.node id).links) ∧
      w.nodeOf? symbol = none := by
  rw [Store.mem_missing_iff]
  constructor
  · rintro ⟨id, way, link, here, eq⟩
    obtain ⟨t, held, inside⟩ := Node.mem_links.1 here
    rcases (h.layout.type held).links inside with rfl | ⟨symbol', _, rfl⟩
    · cases eq
    · unfold Store.missingSymbol at eq
      simp only at eq
      split at eq
      · rename_i none
        cases eq
        rw [← h.project] at none
        exact ⟨⟨id, way, here⟩, Option.isNone_iff_eq_none.1 none⟩
      · cases eq
  · rintro ⟨⟨id, way, here⟩, none⟩
    refine ⟨id, way, _, here, ?_⟩
    have none : (w.store.resolve (.symbol g.project symbol)).isNone = true := by
      rw [← h.project]
      exact Option.isNone_iff_eq_none.2 none
    unfold Store.missingSymbol
    simp only [none, if_true]

theorem Sound.unbound_of_missing (h : Sound g w) {root : NodeId} (mem : symbol ∈ w.store.missing root) :
    w.nodeOf? symbol = none := (h.mem_missing_iff.1 mem).2

end DocTree
