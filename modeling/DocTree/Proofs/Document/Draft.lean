import DocTree.Proofs.Outcome
import DocTree.Proofs.Workspace.Sound

/-!
# Workspaces while symbols are described

While symbols are described, nothing hangs below the project yet, and every other node belongs to an
inline type.

* `Ty.within_iff` : a type stays on its ground if it fits itself and all types directly inside do;
* `Drafting g w` : the state of affairs, with the ground up to the last node; `Drafting.addNodes`;
* `Drafted g w w'` : what describing more leaves alone; `Drafted.trans`.
-/

namespace DocTree

def Ground.upTo (g : Ground) (base : NodeId) : Ground := { g with base := base }

/-! ## Types on the ground -/

/-- Whether a type can stand on a ground, whatever is inside. -/
def Ty.Fits (g : Ground) : Ty → Prop
  | .reference _ link _ _ => link = .external ∨ ∃ symbol < g.top, link = .symbol g.project symbol
  | .inline id => id < g.base ∧ id ≠ g.project
  | .absent => False
  | _ => True

variable {g : Ground}

theorem Ty.within_iff_nested {t : Ty} : t.Within g ↔ ∀ u ∈ t.nested, u.Fits g := by
  constructor
  · intro h u mem
    cases u with
    | reference name link args package => exact h.links (List.mem_filterMap.2 ⟨_, mem, rfl⟩)
    | inline id => exact h.inlines (List.mem_filterMap.2 ⟨_, mem, rfl⟩)
    | absent =>
      have := List.all_eq_true.1 h.complete _ mem
      cases this
    | _ => trivial
  · intro h
    refine ⟨List.all_eq_true.2 fun u mem => ?_, fun mem => ?_, fun mem => ?_⟩
    · have fits := h u mem
      cases u with
      | absent => cases fits
      | _ => rfl
    · obtain ⟨u, mem, eq⟩ := List.mem_filterMap.1 mem
      have fits := h u mem
      cases u with
      | reference name link args package =>
        cases eq
        exact fits
      | _ => cases eq
    · obtain ⟨u, mem, eq⟩ := List.mem_filterMap.1 mem
      have fits := h u mem
      cases u with
      | inline id =>
        cases eq
        exact fits
      | _ => cases eq

theorem Ty.within_iff {t : Ty} : t.Within g ↔ t.Fits g ∧ ∀ u ∈ t.children, u.Within g := by
  rw [within_iff_nested, nested_eq]
  simp only [within_iff_nested, List.forall_mem_cons, List.mem_flatMap]
  exact and_congr_right fun _ =>
    ⟨fun h u mem v inside => h v ⟨u, mem, inside⟩, fun h v ⟨u, mem, inside⟩ => h u mem v inside⟩

theorem Ty.Within.mono {t : Ty} {base base' : NodeId} (h : t.Within (g.upTo base)) (le : base ≤ base') :
    t.Within (g.upTo base') where
  complete := h.complete
  links := h.links
  inlines := fun mem => ⟨Nat.lt_of_lt_of_le (h.inlines mem).1 le, (h.inlines mem).2⟩

/-! ## Drafts -/

/-- Symbols are being described: no symbol has a node, and nothing hangs below the project. -/
structure Drafting (g : Ground) (w : Workspace) : Prop where
  sound : Sound (g.upTo w.store.nodes.size) w
  bare : ∃ name, w.store.node g.project = ⟨name, .project, none, .project []⟩
  unbound : ∀ symbol, w.nodeOf? symbol = none

/-- What describing more leaves alone: the symbols from before, and what is not described. -/
structure Drafted (g : Ground) (w w' : Workspace) : Prop where
  drafting : Drafting g w'
  nodes_le : w.store.nodes.size ≤ w'.store.nodes.size
  symbols_le : w.store.symbols.size ≤ w'.store.symbols.size
  symbol : ∀ {symbol}, symbol < w.store.symbols.size → w'.store.symbol symbol = w.store.symbol symbol
  members : ∀ {symbol member}, w.store.symbols.size ≤ symbol → member ∈ w'.store.membersOf symbol →
    w.store.symbols.size ≤ member
  programs : w'.programs = w.programs
  settings : w'.settings = w.settings
  active : w'.active = w.active

variable {w w₁ w₂ : Workspace}

theorem Drafting.of_unbound (project : w.project = g.project) (plugin : w.HasPluginOnly)
    (catalog : Catalog (g.upTo w.store.nodes.size) w.store) (layout : Layout (g.upTo w.store.nodes.size) w.store)
    (consistent : w.index.Consistent) (bare : ∃ name, w.store.node g.project = ⟨name, .project, none, .project []⟩)
    (unbound : ∀ symbol, w.nodeOf? symbol = none) : Drafting g w := by
  refine ⟨⟨project, plugin, catalog, layout, consistent, ?_, ?_⟩, bare, unbound⟩
  · intro symbol id eq
    rw [unbound] at eq
    cases eq
  · intro owner member id _ eq
    rw [unbound] at eq
    cases eq

theorem membersOf_of_size_le {s : Store} {symbol : SymbolId} (outside : s.symbols.size ≤ symbol) :
    s.membersOf symbol = [] := by
  unfold Store.membersOf Store.symbol
  rw [Array.getElem?_eq_none outside]
  rfl

theorem Drafted.refl (h : Drafting g w) : Drafted g w w where
  drafting := h
  nodes_le := Nat.le_refl _
  symbols_le := Nat.le_refl _
  symbol := fun _ => rfl
  members := fun outside mem => by
    rw [membersOf_of_size_le outside] at mem
    cases mem
  programs := rfl
  settings := rfl
  active := rfl

theorem Drafted.trans (h : Drafted g w w₁) (h' : Drafted g w₁ w₂) : Drafted g w w₂ where
  drafting := h'.drafting
  nodes_le := Nat.le_trans h.nodes_le h'.nodes_le
  symbols_le := Nat.le_trans h.symbols_le h'.symbols_le
  symbol := fun inside => (h'.symbol (Nat.lt_of_lt_of_le inside h.symbols_le)).trans (h.symbol inside)
  members := fun {symbol member} outside mem => by
    by_cases inside : symbol < w₁.store.symbols.size
    · refine h.members outside ?_
      rwa [Store.membersOf, ← h'.symbol inside]
    · exact Nat.le_trans h.symbols_le (h'.members (Nat.le_of_not_lt inside) mem)
  programs := h'.programs.trans h.programs
  settings := h'.settings.trans h.settings
  active := h'.active.trans h.active

/-! ## Adding inline nodes -/

section Nodes

variable {s : Store} {ns : NodeId → List Node}

theorem toList_addNodes (s : Store) (ns : NodeId → List Node) :
    (s.addNodes ns).2.nodes.toList = s.nodes.toList ++ ns s.nodes.size := Array.toList_appendList

theorem size_addNodes (s : Store) (ns : NodeId → List Node) :
    (s.addNodes ns).2.nodes.size = s.nodes.size + (ns s.nodes.size).length := by
  rw [← Array.length_toList, toList_addNodes, List.length_append, Array.length_toList]

theorem node_eq_toList (s : Store) (id : NodeId) : s.node id = (s.nodes.toList[id]?).getD default := by
  rw [Store.node, Array.getElem?_toList]

theorem node_addNodes_of_lt {id : NodeId} (inside : id < s.nodes.size) : (s.addNodes ns).2.node id = s.node id := by
  rw [node_eq_toList, node_eq_toList, toList_addNodes, List.getElem?_append_left]
  exact inside

theorem holds_addNodes (s : Store) (ns : NodeId → List Node) :
    (s.addNodes ns).2.Holds s.nodes.size (ns s.nodes.size) := by
  intro i lt
  rw [node_eq_toList, toList_addNodes, List.getElem?_append_right, Array.length_toList, Nat.add_sub_cancel_left,
    List.getElem?_eq_getElem lt]
  · rfl
  · rw [Array.length_toList]
    omega

end Nodes

/-- Nodes of an inline type: their types are on the ground, and they hold none but each other. -/
structure InlineNodes (g : Ground) (first : NodeId) (ns : List Node) : Prop where
  type : ∀ {n}, n ∈ ns → ∀ {t}, Part.type t ∈ n.parts → t.Within g
  node : ∀ {n}, n ∈ ns → ∀ {c}, Part.node c ∈ n.parts → first ≤ c ∧ c < first + ns.length

def Workspace.withNodes (w : Workspace) (ns : NodeId → List Node) : Workspace :=
  { w with store := (w.store.addNodes ns).2 }

theorem Drafting.addNodes (h : Drafting g w) {ns : NodeId → List Node}
    (new : InlineNodes (g.upTo w.store.nodes.size) w.store.nodes.size (ns w.store.nodes.size)) :
    Drafted g w (w.withNodes ns) := by
  have size := size_addNodes w.store ns
  have le : w.store.nodes.size ≤ (w.withNodes ns).store.nodes.size := size ▸ Nat.le_add_right _ _
  have layout := h.sound.layout
  have project_lt : g.project < w.store.nodes.size := layout.project_lt
  have old : ∀ {id}, id < w.store.nodes.size → (w.withNodes ns).store.node id = w.store.node id :=
    fun inside => node_addNodes_of_lt inside
  have added : ∀ {id}, w.store.nodes.size ≤ id → id < (w.withNodes ns).store.nodes.size →
      (w.withNodes ns).store.node id ∈ ns w.store.nodes.size := by
    intro id above below
    refine (holds_addNodes w.store ns).mem_of_range (List.mem_range'_1.2 ⟨above, ?_⟩)
    rwa [← size]
  obtain ⟨name, bare⟩ := h.bare
  have bare : (w.withNodes ns).store.node g.project = ⟨name, .project, none, .project []⟩ := (old project_lt).trans bare
  have layout' : Layout (g.upTo (w.withNodes ns).store.nodes.size) (w.withNodes ns).store := by
    refine .of_bare layout.strays (Nat.lt_of_lt_of_le project_lt le) rfl (congrArg Node.body bare) ?_ ?_
    · intro id inside t mem
      by_cases earlier : id < w.store.nodes.size
      · exact (layout.type (old earlier ▸ mem)).mono le
      · exact (new.type (added (Nat.le_of_not_lt earlier) inside) mem).mono le
    · intro id c inside ne mem
      by_cases earlier : id < w.store.nodes.size
      · have improper : ¬(g.upTo w.store.nodes.size).Proper id := by
          rintro (here | above)
          · exact ne here
          · exact absurd earlier (Nat.not_lt_of_le above)
        have improper' := layout.inline improper (old earlier ▸ mem)
        rintro (here | above)
        · exact improper' (Or.inl here)
        · exact improper' (Or.inr (Nat.le_trans le above))
      · obtain ⟨above, below⟩ := new.node (added (Nat.le_of_not_lt earlier) inside) mem
        rintro (here | beyond)
        · exact absurd project_lt (Nat.not_lt_of_le (here ▸ above))
        · exact absurd below (Nat.not_lt_of_le (size ▸ beyond))
  have catalog := h.sound.catalog
  refine ⟨.of_unbound h.sound.project h.sound.plugin ?_ layout' h.sound.consistent ⟨name, bare⟩ h.unbound, le,
    Nat.le_refl _, fun _ => rfl, ?_, rfl, rfl, rfl⟩
  · exact ⟨catalog.named, fun described _ mem => (catalog.types described mem).mono le, catalog.members,
      catalog.described, catalog.owner⟩
  · intro symbol member beyond mem
    rw [show (w.withNodes ns).store.membersOf symbol = [] from membersOf_of_size_le beyond] at mem
    cases mem

end DocTree
