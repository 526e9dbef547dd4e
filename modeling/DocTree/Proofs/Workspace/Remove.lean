import DocTree.Proofs.Store.Tree
import DocTree.Proofs.Workspace.Sound

/-!
# Removing an empty declaration

* `walk_bare` : a walk from a node that holds nothing visits nothing else;
* `loses_remove`, `nodeOf?_remove` : what removing a node leads to;
* `Sound.remove` : the workspace stays sound.
-/

namespace DocTree

namespace Store

variable {s : Store} {id : NodeId}

theorem walk_bare (inside : id < s.nodes.size) (bare : (s.node id).body = .declaration {}) : s.walk id = [id] := by
  obtain ⟨n, eq⟩ := Nat.exists_eq_add_one_of_ne_zero (Nat.ne_of_gt (Nat.zero_lt_of_lt inside))
  have nothing : s.owned id = [] := by
    rw [owned, Node.owned, bare]
    rfl
  rw [walk, eq, walkDepth, nothing]
  rfl

@[simp] theorem size_detach (s : Store) (id : NodeId) : (s.detach id).nodes.size = s.nodes.size := by
  unfold detach
  simp only [size_modifyNode]
  split
  · split
    · exact size_modifyNode ..
    · rfl
  · rfl

theorem indexes_detach (s : Store) (id : NodeId) : (s.detach id).indexes = s.indexes := by
  unfold detach modifyNode
  simp only
  split
  · split
    · rfl
    · rfl
  · rfl

theorem symbols_detach (s : Store) (id : NodeId) : (s.detach id).symbols = s.symbols := by
  unfold detach modifyNode
  simp only
  split
  · split
    · rfl
    · rfl
  · rfl

theorem strays_detach (h : s.strays = .empty) (id : NodeId) : (s.detach id).strays = .empty := by
  unfold detach modifyNode
  simp only
  split
  · split
    · show s.strays.freeParent id = _
      rw [h]
      rfl
    · show s.strays.freeParent id = _
      rw [h]
      rfl
  · show s.strays.freeParent id = _
    rw [h]
    rfl

/-- Taking away the parent of a node that there is not changes nothing. -/
theorem node_free (s : Store) (id id' : NodeId) : (s.modifyNode id fun n => { n with parent := none }).node id' =
    { s.node id' with parent := if id' = id then none else (s.node id').parent } := by
  by_cases inside : id < s.nodes.size
  · rw [node_modifyNode inside]
    by_cases here : id' = id
    · rw [if_pos here, if_pos here, here]
    · rw [if_neg here, if_neg here]
  · have outside : s.nodes.size ≤ id := Nat.le_of_not_lt inside
    have same : (s.modifyNode id fun n => { n with parent := none }).node id' = s.node id' := by
      unfold node modifyNode
      show ((s.nodes.modify id _)[id']?).getD default = _
      rw [Array.getElem?_modify]
      split
      · rename_i here
        rw [← here, Array.getElem?_eq_none outside]
        rfl
      · rfl
    rw [same]
    split
    · rename_i here
      rw [here, node_of_size_le outside]
      rfl
    · rfl

/-- A node is first taken from the children of its parent, if it has one that holds children; then it is freed. -/
theorem exists_detach (s : Store) (id : NodeId) :
    ∃ t : Store, (∀ id', t.node id' = { s.node id' with
        body := if (s.node id).parent = some id' then (s.node id').body.mapChildren (·.erase id)
          else (s.node id').body }) ∧
      s.detach id =
        ({ t with strays := t.strays.freeParent id } : Store).modifyNode id fun n => { n with parent := none } := by
  unfold detach
  cases (s.node id).parent with
  | none => exact ⟨s, fun _ => rfl, rfl⟩
  | some parent =>
    by_cases container : s.isContainer parent = true
    · refine ⟨s.removeChild parent id, fun id' => (node_modifyBody (lt_of_isContainer container) _ id').trans ?_, ?_⟩
      · by_cases above : id' = parent
        · rw [if_pos above, if_pos (congrArg some above.symm), above]
        · rw [if_neg above, if_neg fun eq => above (Option.some.inj eq).symm]
      · simp only [container, if_true]
    · refine ⟨s, fun id' => ?_, ?_⟩
      · split
        · rename_i above
          have bare : (s.node id').body.mapChildren (·.erase id) = (s.node id').body := by
            rw [Option.some.inj above, isContainer] at container
            cases eq : (s.node id').body <;> first | rfl | exact absurd (eq ▸ rfl) container
          rw [bare]
        · rfl
      · simp only [container, Bool.false_eq_true, if_false]

theorem loses_detach (s : Store) (id : NodeId) : s.Loses id (s.detach id) where
  size := size_detach s id
  node := fun id' => by
    obtain ⟨t, taken, eq⟩ := exists_detach s id
    have taken : ({ t with strays := t.strays.freeParent id } : Store).node id' = _ := taken id'
    rw [eq, node_free, taken]

end Store

namespace Workspace

variable {w : Workspace} {id : NodeId}

theorem kept_remove (w : Workspace) (id : NodeId) : Kept w (w.remove id) :=
  ⟨Store.symbols_detach _ id, fun here => Store.strays_detach (s := w.store.modifyIndex _ _) here id, rfl, rfl, rfl,
    rfl, rfl, fun here => here⟩

theorem size_remove (w : Workspace) (id : NodeId) : (w.remove id).store.nodes.size = w.store.nodes.size :=
  Store.size_detach ..

theorem loses_remove (w : Workspace) (id : NodeId) : w.store.Loses id (w.remove id).store where
  size := size_remove w id
  node := (Store.loses_detach (w.store.modifyIndex _ _) id).node

theorem index_remove (w : Workspace) (id : NodeId) :
    (w.remove id).index = (w.store.walk id).foldl Index.forget w.index := by
  show ((((w.store.modifyIndex w.project _).detach id).indexes.find? w.project).getD default) = _
  rw [Store.indexes_detach]
  exact Store.index_modifyIndex ..

theorem index_remove_bare (inside : id < w.store.nodes.size) (bare : (w.store.node id).body = .declaration {}) :
    (w.remove id).index = w.index.forget id := by
  rw [index_remove, Store.walk_bare inside bare]
  rfl

theorem nodeOf?_remove (consistent : w.index.Consistent) (inside : id < w.store.nodes.size)
    (bare : (w.store.node id).body = .declaration {}) (symbol : SymbolId) :
    (w.remove id).nodeOf? symbol = if w.nodeOf? symbol = some id then none else w.nodeOf? symbol := by
  unfold Workspace.nodeOf?
  rw [index_remove_bare inside bare, Index.nodeOf?_forget consistent]

end Workspace

open Workspace

/-- A declaration that can be removed: it hangs where it is held, and holds nothing. -/
structure Removable (g : Ground) (s : Store) (parent id : NodeId) : Prop where
  proper : g.Proper parent
  child : id ∈ s.children parent
  bare : (s.node id).body = .declaration {}

variable {g : Ground} {w : Workspace} {parent id : NodeId}

namespace Removable

theorem inside (h : Removable g w.store parent id) (layout : Layout g w.store) : id < w.store.nodes.size :=
  (layout.child h.proper h.child).2.1

/-- The declaration is taken from its parent. -/
theorem cut (h : Removable g w.store parent id) (layout : Layout g w.store) :
    w.store.Cut parent id (w.remove id).store := by
  obtain ⟨_, _, hangs, _⟩ := layout.child h.proper h.child
  refine (loses_remove w id).cut hangs ?_
  rintro rfl
  have child := h.child
  rw [Store.children, h.bare] at child
  cases child

theorem children (h : Removable g w.store parent id) (layout : Layout g w.store) (id' : NodeId) :
    (w.remove id).store.children id' =
      if id' = parent then (w.store.children parent).erase id else w.store.children id' :=
  (h.cut layout).children id'

theorem ne_of_child (h : Removable g w.store parent id) (layout : Layout g w.store) {id' c : NodeId}
    (proper : g.Proper id') (mem : c ∈ (w.remove id).store.children id') :
    c ∈ w.store.children id' ∧ c ≠ id := by
  rw [h.children layout] at mem
  split at mem
  · rename_i above
    subst above
    obtain ⟨ne, mem⟩ := (layout.nodup h.proper).mem_erase_iff.1 mem
    exact ⟨mem, ne⟩
  · rename_i other
    refine ⟨mem, ?_⟩
    rintro rfl
    have hangs := (layout.child h.proper h.child).2.2.1
    have hangs' := (layout.child proper mem).2.2.1
    rw [hangs] at hangs'
    exact other (Option.some.inj hangs').symm

end Removable

/-- A layout without an empty declaration is a layout. -/
theorem Layout.remove (h : Layout g w.store) (removable : Removable g w.store parent id) :
    Layout g (w.remove id).store where
  strays := (kept_remove w id).strays h.strays
  project_lt := h.project_lt
  base_le := size_remove w id ▸ h.base_le
  project := by
    obtain ⟨children, eq⟩ := h.project
    rw [(removable.cut h).node, if_neg (h.ne_project (h.child removable.proper removable.child).1).symm]
    split
    · rename_i above
      rw [← above, eq]
      exact ⟨_, rfl⟩
    · exact ⟨children, eq⟩
  type := fun mem => h.type ((removable.cut h).parts mem)
  inline := fun improper mem => h.inline improper ((removable.cut h).parts mem)
  child := fun {id' c} proper mem => by
    obtain ⟨mem, ne⟩ := removable.ne_of_child h proper mem
    obtain ⟨above, below, hangs, declaration⟩ := h.child proper mem
    have cut := removable.cut h
    exact ⟨above, cut.size ▸ below, (cut.parent_same ne).trans hangs, (cut.declaration_iff c).2 declaration⟩
  limb := fun {id' c} proper mem => by
    have cut := removable.cut h
    rw [cut.limbs] at mem
    obtain ⟨above, below, limb⟩ := h.limb proper mem
    have ne : c ≠ id := by
      rintro rfl
      exact limb.body _ removable.bare
    refine ⟨above, cut.size ▸ below, (cut.parent_same ne).trans limb.parent, fun b eq => ?_⟩
    obtain ⟨b', eq'⟩ := (cut.declaration_iff c).1 ⟨b, eq⟩
    exact limb.body b' eq'
  nodup := fun {id'} proper => by
    rw [removable.children h]
    split
    · exact (h.nodup removable.proper).erase id
    · exact h.nodup proper

/-- Removing a declaration that holds nothing keeps a workspace sound. -/
theorem Sound.remove (h : Sound g w) (removable : Removable g w.store parent id) : Sound g (w.remove id) := by
  have kept := kept_remove w id
  have inside := removable.inside h.layout
  have nodeOf? := nodeOf?_remove h.consistent inside removable.bare
  have other : ∀ {symbol id'}, (w.remove id).nodeOf? symbol = some id' →
      w.nodeOf? symbol = some id' ∧ id' ≠ id := by
    intro symbol id' eq
    rw [nodeOf?] at eq
    split at eq
    · cases eq
    · rename_i ne
      exact ⟨eq, fun same => ne (same ▸ eq)⟩
  refine ⟨kept.project.trans h.project, kept.listeners.trans h.plugin, h.catalog.congr kept.symbols,
    h.layout.remove removable, index_remove_bare inside removable.bare ▸ h.consistent.forget id, ?_, ?_⟩
  · intro symbol id' eq
    obtain ⟨eq, ne⟩ := other eq
    obtain ⟨above, below, declaration⟩ := h.bound eq
    exact ⟨above, size_remove w id ▸ below, ((removable.cut h.layout).declaration_iff id').2 declaration⟩
  · intro a member id' mem eq
    rw [membersOf_congr kept.symbols] at mem
    obtain ⟨eq, ne⟩ := other eq
    obtain ⟨id'', bound, child⟩ := h.owner mem eq
    have ne' : id'' ≠ id := by
      rintro rfl
      rw [Store.children, removable.bare] at child
      cases child
    refine ⟨id'', ?_, ?_⟩
    · rw [nodeOf?, if_neg]
      · exact bound
      · intro same
        rw [bound] at same
        exact ne' (Option.some.inj same)
    · rw [removable.children h.layout]
      split
      · rename_i above
        exact (List.mem_erase_of_ne ne).2 (above ▸ child)
      · exact child

end DocTree
