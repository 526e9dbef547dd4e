import DocTree.Plugin
import DocTree.Proofs.Store.Change

/-!
# What operations on a workspace leave alone

* `Quiet w w'` : from `w` to `w'` things were noted and logged, the tree is untouched;
* `Kept w w'` : from `w` to `w'` at most nodes, bindings and notes changed;
* `HasPluginOnly` : nobody but the plugin listens; then creations are announced
  (`canAnnounce_of_plugin`), which is quiet, and marks where they come from (`find?_known_announce`);
* `node_create`, `nodeOf?_create`, `nodeOf?_register` : what an operation leads to.
-/

namespace DocTree.Workspace

/-- The tree, its bindings and what decides on further operations are the same. More may be known
about where modules come from. -/
structure Quiet (w w' : Workspace) : Prop where
  store : w'.store = w.store
  project : w'.project = w.project
  active : w'.active = w.active
  bindings : w'.bindings = w.bindings
  programs : w'.programs = w.programs
  settings : w'.settings = w.settings
  listeners : w'.listeners = w.listeners
  known : ∀ {id}, (w.known.find? id).isSome → (w'.known.find? id).isSome

/-- What an addition to the tree leaves alone. -/
structure Kept (w w' : Workspace) : Prop where
  symbols : w'.store.symbols = w.store.symbols
  strays : w.store.strays = .empty → w'.store.strays = .empty
  project : w'.project = w.project
  active : w'.active = w.active
  programs : w'.programs = w.programs
  settings : w'.settings = w.settings
  listeners : w'.listeners = w.listeners
  known : ∀ {id}, (w.known.find? id).isSome → (w'.known.find? id).isSome

variable {w w₁ w₂ : Workspace}

theorem Quiet.refl (w : Workspace) : Quiet w w := ⟨rfl, rfl, rfl, rfl, rfl, rfl, rfl, id⟩

theorem Quiet.trans (h : Quiet w w₁) (h' : Quiet w₁ w₂) : Quiet w w₂ where
  store := h'.store.trans h.store
  project := h'.project.trans h.project
  active := h'.active.trans h.active
  bindings := h'.bindings.trans h.bindings
  programs := h'.programs.trans h.programs
  settings := h'.settings.trans h.settings
  listeners := h'.listeners.trans h.listeners
  known := fun here => h'.known (h.known here)

theorem Kept.refl (w : Workspace) : Kept w w := ⟨rfl, id, rfl, rfl, rfl, rfl, rfl, id⟩

theorem Kept.trans (h : Kept w w₁) (h' : Kept w₁ w₂) : Kept w w₂ where
  symbols := h'.symbols.trans h.symbols
  strays := fun here => h'.strays (h.strays here)
  project := h'.project.trans h.project
  active := h'.active.trans h.active
  programs := h'.programs.trans h.programs
  settings := h'.settings.trans h.settings
  listeners := h'.listeners.trans h.listeners
  known := fun here => h'.known (h.known here)

theorem Quiet.kept (h : Quiet w w₁) : Kept w w₁ where
  symbols := congrArg Store.symbols h.store
  strays := fun here => (congrArg Store.strays h.store).trans here
  project := h.project
  active := h.active
  programs := h.programs
  settings := h.settings
  listeners := h.listeners
  known := h.known

theorem Quiet.index (h : Quiet w w₁) : w₁.index = w.index := by
  unfold Workspace.index
  rw [h.store, h.project]

theorem Quiet.nodeOf? (h : Quiet w w₁) (symbol : SymbolId) : w₁.nodeOf? symbol = w.nodeOf? symbol := by
  unfold Workspace.nodeOf?
  rw [h.index]

theorem Kept.symbol (h : Kept w w₁) (symbol : SymbolId) : w₁.store.symbol symbol = w.store.symbol symbol := by
  unfold Store.symbol
  rw [h.symbols]

/-! ## Notes -/

theorem quiet_report (w : Workspace) (level : LogLevel) (source : LogSource) (message : String) :
    Quiet w (w.report level source message) := ⟨rfl, rfl, rfl, rfl, rfl, rfl, rfl, id⟩

theorem quiet_reportForeign (w : Workspace) (symbol : Symbol) : Quiet w (w.reportForeign symbol) := by
  unfold reportForeign
  split
  · exact quiet_report ..
  · exact Quiet.refl w

theorem quiet_reactToCreation (scope id : NodeId) (w : Workspace) (listener : Listener) :
    Quiet w (reactToCreation scope id w listener) := by
  unfold reactToCreation
  split
  · split
    · split
      · refine ⟨rfl, rfl, rfl, rfl, rfl, rfl, rfl, fun here => ?_⟩
        rw [OrdMap.find?_insert]
        split
        · rfl
        · exact here
      · exact Quiet.refl w
    · exact Quiet.refl w
  · exact ⟨rfl, rfl, rfl, rfl, rfl, rfl, rfl, fun here => here⟩
  · exact ⟨rfl, rfl, rfl, rfl, rfl, rfl, rfl, fun here => here⟩
  · exact Quiet.refl w

theorem quiet_announce (w : Workspace) (scope id : NodeId) : Quiet w (w.announce scope id) := by
  have notes : ∀ (ls : List Listener) (v : Workspace), Quiet v (ls.foldl (reactToCreation scope id) v) := by
    intro ls
    induction ls with
    | nil => exact Quiet.refl
    | cons l ls ih => exact fun v => (quiet_reactToCreation scope id v l).trans (ih _)
  exact (quiet_report ..).trans (notes _ _)

/-! ## The plugin's listeners -/

/-- Nobody but the plugin listens. -/
def HasPluginOnly (w : Workspace) : Prop :=
  w.listeners = [⟨creationEvent, .int 0, .trackProgram⟩, ⟨resolutionEvent, passPriority, .resolve⟩]

theorem HasPluginOnly.reacting_creation (h : w.HasPluginOnly) :
    w.reacting? creationEvent = some [⟨creationEvent, .int 0, .trackProgram⟩] := by
  unfold reacting?
  rw [h]
  rfl

theorem HasPluginOnly.reacting_resolution (h : w.HasPluginOnly) :
    w.reacting? resolutionEvent = some [⟨resolutionEvent, passPriority, .resolve⟩] := by
  unfold reacting?
  rw [h]
  rfl

theorem canAnnounce_of_plugin (h : w.HasPluginOnly) : w.canAnnounce = true := by
  unfold canAnnounce
  rw [h.reacting_creation]
  rfl

/-- Announcing a creation while a program is active marks the scope with it, if that is a module or the project, and
nothing else. -/
theorem find?_known_announce (h : w.HasPluginOnly) (scope id : NodeId) {program : Value}
    (active : w.active = some program) (id' : NodeId) : (w.announce scope id).known.find? id' =
      if id' = scope ∧ (w.store.node scope).isKind trackedKinds = true then some program else w.known.find? id' := by
  unfold announce
  rw [h.reacting_creation]
  simp only [Option.getD_some, List.foldl_cons, List.foldl_nil, reactToCreation, report, active]
  split
  · rename_i tracked
    rw [OrdMap.find?_insert]
    simp only [tracked, and_true]
  · rename_i untracked
    rw [if_neg fun marked => untracked marked.2]

theorem known_announce_iff (h : w.HasPluginOnly) (scope id : NodeId) (active : w.active.isSome) (id' : NodeId) :
    ((w.announce scope id).known.find? id').isSome ↔
      (w.known.find? id').isSome ∨ (id' = scope ∧ (w.store.node scope).isKind trackedKinds = true) := by
  obtain ⟨program, eq⟩ := Option.isSome_iff_exists.1 active
  rw [find?_known_announce h scope id eq]
  split
  · rename_i marked
    exact ⟨fun _ => Or.inr marked, fun _ => rfl⟩
  · rename_i unmarked
    exact ⟨Or.inl, fun known => known.resolve_right unmarked⟩

/-! ## Registering and creating -/

theorem index_list (w : Workspace) (id : NodeId) : (w.list id).index = w.index.list id :=
  Store.index_modifyIndex ..

theorem index_register_none (w : Workspace) (scope id : NodeId) :
    (w.register scope id none).index = w.index.list id := Store.index_modifyIndex ..

theorem index_register (w : Workspace) (scope id : NodeId) (symbol : SymbolId) :
    (w.register scope id (some symbol)).index = w.index.bind id symbol := Store.index_modifyIndex ..

theorem nodes_register (w : Workspace) (scope id : NodeId) (symbol : Option SymbolId) :
    (w.register scope id symbol).store.nodes = w.store.nodes := by
  cases symbol <;> rfl

theorem node_register (w : Workspace) (scope id : NodeId) (symbol : Option SymbolId) (id' : NodeId) :
    (w.register scope id symbol).store.node id' = w.store.node id' := by
  unfold Store.node
  rw [nodes_register]

theorem kept_register (w : Workspace) (scope id : NodeId) (symbol : Option SymbolId) :
    Kept w (w.register scope id symbol) := by
  cases symbol <;> exact ⟨rfl, fun here => here, rfl, rfl, rfl, rfl, rfl, fun here => here⟩

theorem consistent_register (h : w.index.Consistent) (scope id : NodeId) (symbol : Option SymbolId) :
    (w.register scope id symbol).index.Consistent := by
  cases symbol with
  | none => exact index_register_none w scope id ▸ h.list id
  | some symbol => exact index_register w scope id symbol ▸ h.bind id symbol

theorem nodeOf?_register (h : w.index.Consistent) (scope id : NodeId) (symbol : Option SymbolId)
    (symbol' : SymbolId) :
    (w.register scope id symbol).nodeOf? symbol' =
      if some symbol' = symbol then some id else w.nodeOf? symbol' := by
  unfold Workspace.nodeOf?
  cases symbol with
  | none =>
    rw [index_register_none, Index.nodeOf?_list h, if_neg]
    exact fun eq => nomatch eq
  | some symbol =>
    rw [index_register, Index.nodeOf?_bind h]
    simp only [Option.some.injEq]

section Creating

variable {scope : NodeId} {kind : Kind} {name : Value} {symbol : Option SymbolId}

theorem size_create :
    (w.create scope kind name symbol).2.store.nodes.size = w.store.nodes.size + 1 := by
  unfold create
  show (Workspace.register _ _ _ _).store.nodes.size = _
  rw [nodes_register]
  simp [Store.addChild, Store.modifyBody]

variable (kind name symbol) in
/-- A created declaration is the last child of its scope. -/
theorem node_create (inside : scope < w.store.nodes.size) (id : NodeId) :
    (w.create scope kind name symbol).2.store.node id =
      if id = w.store.nodes.size then ⟨name, kind, some scope, .declaration {}⟩
      else if id = scope then (w.store.node scope).giveChildren [w.store.nodes.size]
      else w.store.node id := by
  unfold create
  show (Workspace.register _ _ _ _).store.node id = _
  rw [node_register]
  show ((w.store.addNode _).2.addChild scope w.store.nodes.size).node id = _
  have ne : scope ≠ w.store.nodes.size := Nat.ne_of_lt inside
  have added := fun id' => Store.node_addNode w.store ⟨name, kind, none, .declaration {}⟩ id'
  rw [Store.node_addChild (by rw [Store.size_addNode]; exact Nat.lt_succ_of_lt inside)
    (by rw [Store.size_addNode]; exact Nat.lt_succ_self _) ne, added, added, added]
  by_cases here : id = scope
  · rw [if_pos here, if_neg ne, if_neg (here ▸ ne), if_pos here]
  · rw [if_neg here]
    by_cases last : id = w.store.nodes.size
    · rw [if_pos last, if_pos last, if_pos rfl]
    · rw [if_neg last, if_neg last, if_neg last, if_neg here]

variable (w scope kind name symbol) in
theorem kept_create : Kept w (w.create scope kind name symbol).2 := by
  refine Kept.trans ?_ (kept_register _ scope w.store.nodes.size symbol)
  refine ⟨rfl, fun here => ?_, rfl, rfl, rfl, rfl, rfl, id⟩
  show (w.store.strays.freeParent _) = _
  rw [here]
  rfl

variable (w scope kind name symbol) in
theorem index_create :
    (w.create scope kind name symbol).2.index = w.index.register w.store.nodes.size symbol := by
  cases symbol with
  | none => exact index_register_none { w with store := ((w.store.addNode _).2.addChild _ _) } scope _
  | some symbol => exact index_register { w with store := ((w.store.addNode _).2.addChild _ _) } scope _ symbol

theorem consistent_create (h : w.index.Consistent) :
    (w.create scope kind name symbol).2.index.Consistent :=
  consistent_register (w := { w with store := ((w.store.addNode _).2.addChild _ _) }) h ..

theorem nodeOf?_create (h : w.index.Consistent) (symbol' : SymbolId) :
    (w.create scope kind name symbol).2.nodeOf? symbol' =
      if some symbol' = symbol then some w.store.nodes.size else w.nodeOf? symbol' :=
  nodeOf?_register (w := { w with store := ((w.store.addNode _).2.addChild _ _) }) h ..

end Creating

end DocTree.Workspace
