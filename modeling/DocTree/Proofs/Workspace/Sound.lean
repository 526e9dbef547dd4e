import DocTree.Proofs.Convert.Declare

/-!
# Sound workspaces

What holds of a workspace from the moment that all symbols of a document are described.

* `Ground` : what does not change any more; `Ty.Within g t` : a type that stays on this ground;
* `Catalog g s` : the symbols; members have one owner each, and are no names of the document;
* `Layout g s` : the nodes; whatever is not part of an inline type hangs where it is held;
* `Sound g w` : both, and the bindings fit them; a member is bound only below its owner;
* `Sound.create`, `Sound.declare`, `Sound.register`, `Sound.remove` : all operations keep it.
-/

namespace DocTree

/-! ## Ground -/

/-- What is fixed once all symbols of a document are described. -/
structure Ground where
  project : NodeId
  /-- The nodes below this number, the project apart, belong to inline types. -/
  base : NodeId
  /-- The symbols below this number are declared by name, all others are members. -/
  top : SymbolId
  /-- The names that symbols are declared by. -/
  names : List String

def Ground.Proper (g : Ground) (id : NodeId) : Prop := id = g.project ∨ g.base ≤ id

/-- A type that can be gone through, refers to named symbols only, and holds inline nodes only. -/
structure Ty.Within (g : Ground) (t : Ty) : Prop where
  complete : t.isComplete = true
  links : ∀ {link}, link ∈ t.links → link = .external ∨ ∃ symbol < g.top, link = .symbol g.project symbol
  inlines : ∀ {id}, id ∈ t.inlines → id < g.base ∧ id ≠ g.project

/-- The members that the description of a symbol lists. -/
def Store.membersOf (s : Store) (symbol : SymbolId) : List SymbolId :=
  ((s.symbol symbol).description.map (·.members)).getD []

theorem Store.membersOf_eq {s : Store} {symbol : SymbolId} {d : Description}
    (described : (s.symbol symbol).description = some d) : s.membersOf symbol = d.members := by
  rw [membersOf, described]
  rfl

theorem Store.lt_of_described {s : Store} {symbol : SymbolId} {d : Description}
    (described : (s.symbol symbol).description = some d) : symbol < s.symbols.size := by
  by_contra outside
  rw [Store.symbol, Array.getElem?_eq_none (Nat.le_of_not_lt outside)] at described
  cases described

/-- The symbols of a document. -/
structure Catalog (g : Ground) (s : Store) : Prop where
  named : ∀ {symbol}, symbol < g.top → symbol < s.symbols.size ∧
    ∃ name ∈ g.names, (s.symbol symbol).name = .str name
  types : ∀ {symbol d}, (s.symbol symbol).description = some d → ∀ {t}, t ∈ d.types → t.Within g
  members : ∀ {owner member}, member ∈ s.membersOf owner → g.top ≤ member ∧ member < s.symbols.size
  described : ∀ {symbol}, g.top ≤ symbol → symbol < s.symbols.size → (s.symbol symbol).description.isSome
  owner : ∀ {a b member}, member ∈ s.membersOf a → member ∈ s.membersOf b → a = b

/-- The nodes of a document and of all that was created since. -/
structure Layout (g : Ground) (s : Store) : Prop where
  strays : s.strays = .empty
  project_lt : g.project < g.base
  base_le : g.base ≤ s.nodes.size
  project : ∃ children, (s.node g.project).body = .project children
  type : ∀ {id t}, Part.type t ∈ (s.node id).parts → t.Within g
  inline : ∀ {id c}, ¬g.Proper id → Part.node c ∈ (s.node id).parts → ¬g.Proper c
  child : ∀ {id c}, g.Proper id → c ∈ s.children id →
    g.base ≤ c ∧ c < s.nodes.size ∧ (s.node c).parent = some id ∧ ∃ b, (s.node c).body = .declaration b
  limb : ∀ {id c}, g.Proper id → c ∈ (s.node id).limbs → g.base ≤ c ∧ c < s.nodes.size ∧ s.LimbOf id c
  nodup : ∀ {id}, g.Proper id → (s.children id).Nodup

variable {g : Ground} {s t : Store}

theorem Catalog.congr (h : Catalog g s) (same : t.symbols = s.symbols) : Catalog g t := by
  have symbol : ∀ X, t.symbol X = s.symbol X := fun X => by rw [Store.symbol, Store.symbol, same]
  have members : ∀ X, t.membersOf X = s.membersOf X := fun X => by
    rw [Store.membersOf, Store.membersOf, symbol]
  constructor
  · intro X lt
    rw [same, symbol]
    exact h.named lt
  · intro X d eq
    exact h.types (symbol X ▸ eq)
  · intro a X mem
    rw [same]
    exact h.members (members a ▸ mem)
  · intro X le lt
    rw [symbol]
    exact h.described le (same ▸ lt)
  · intro a b X mem mem'
    exact h.owner (members a ▸ mem) (members b ▸ mem')

theorem Store.membersOf_describe {symbol : SymbolId} {d : Description}
    (described : (t.symbol symbol).description = some d) (other : ∀ {X}, X ≠ symbol → t.symbol X = s.symbol X)
    (owner : SymbolId) : t.membersOf owner = if owner = symbol then d.members else s.membersOf owner := by
  split
  · rename_i here
    rw [here]
    exact membersOf_eq described
  · rename_i ne
    rw [membersOf, other ne, membersOf]

/-- Describing a symbol, be it new or not, leaves a catalog if no other symbol owns the members. -/
theorem Catalog.describe (h : Catalog g s) {symbol : SymbolId} {d : Description}
    (size_le : s.symbols.size ≤ t.symbols.size)
    (inside : ∀ {X}, X < t.symbols.size → X ≠ symbol → X < s.symbols.size)
    (name : symbol < g.top → (t.symbol symbol).name = (s.symbol symbol).name)
    (described : (t.symbol symbol).description = some d) (other : ∀ {X}, X ≠ symbol → t.symbol X = s.symbol X)
    (within : ∀ u ∈ d.types, u.Within g)
    (loose : ∀ member ∈ d.members, g.top ≤ member ∧ member < t.symbols.size ∧ ∀ owner, member ∉ s.membersOf owner) :
    Catalog g t := by
  have membersOf := Store.membersOf_describe described other
  constructor
  · intro X lt
    obtain ⟨below, named⟩ := h.named lt
    refine ⟨Nat.lt_of_lt_of_le below size_le, ?_⟩
    by_cases here : X = symbol
    · rw [here, name (here ▸ lt), ← here]
      exact named
    · rw [other here]
      exact named
  · intro X d' eq u mem
    by_cases here : X = symbol
    · rw [here, described] at eq
      cases eq
      exact within u mem
    · exact h.types (other here ▸ eq) mem
  · intro owner member mem
    rw [membersOf] at mem
    split at mem
    · exact ⟨(loose member mem).1, (loose member mem).2.1⟩
    · exact ⟨(h.members mem).1, Nat.lt_of_lt_of_le (h.members mem).2 size_le⟩
  · intro X above below
    by_cases here : X = symbol
    · rw [here, described]
      rfl
    · rw [other here]
      exact h.described above (inside below here)
  · intro a b member mem mem'
    rw [membersOf] at mem mem'
    split at mem <;> split at mem'
    · rename_i here here'
      exact here.trans here'.symm
    · exact absurd mem' ((loose member mem).2.2 b)
    · exact absurd mem ((loose member mem').2.2 a)
    · exact h.owner mem mem'

namespace Layout

theorem congr (h : Layout g s) (nodes : t.nodes = s.nodes) (strays : t.strays = s.strays) : Layout g t := by
  obtain ⟨nodes', symbols', indexes', strays'⟩ := t
  cases nodes
  cases strays
  refine ⟨h.strays, h.project_lt, h.base_le, h.project, h.type, h.inline, h.child, fun proper mem => ?_, h.nodup⟩
  obtain ⟨above, below, limb⟩ := h.limb proper mem
  exact ⟨above, below, limb.parent, limb.body⟩

theorem project_lt_size (h : Layout g s) : g.project < s.nodes.size := Nat.lt_of_lt_of_le h.project_lt h.base_le

theorem ne_project (h : Layout g s) {id : NodeId} (above : g.base ≤ id) : id ≠ g.project :=
  (Nat.ne_of_lt (Nat.lt_of_lt_of_le h.project_lt above)).symm

/-- A project with nothing below it is laid out if all other nodes belong to inline types. -/
theorem of_bare (strays : s.strays = .empty) (project_lt : g.project < g.base) (base : g.base = s.nodes.size)
    (bare : (s.node g.project).body = .project [])
    (type : ∀ {id}, id < s.nodes.size → ∀ {u}, Part.type u ∈ (s.node id).parts → u.Within g)
    (inline : ∀ {id c}, id < s.nodes.size → id ≠ g.project → Part.node c ∈ (s.node id).parts → ¬g.Proper c) :
    Layout g s := by
  have empty : ∀ {id}, g.Proper id → s.children id = [] ∧ (s.node id).limbs = [] := by
    intro id proper
    rcases proper with rfl | above
    · refine ⟨congrArg Body.children bare, ?_⟩
      unfold Node.limbs
      rw [bare]
    · rw [Store.children, Store.node_of_size_le (base ▸ above)]
      exact ⟨rfl, rfl⟩
  constructor
  · exact strays
  · exact project_lt
  · exact Nat.le_of_eq base
  · exact ⟨[], bare⟩
  · exact fun mem => type (Store.lt_of_mem_parts mem) mem
  · exact fun improper mem => inline (Store.lt_of_mem_parts mem) (fun here => improper (Or.inl here)) mem
  · intro id c here mem
    rw [(empty here).1] at mem
    cases mem
  · intro id c here mem
    rw [(empty here).2] at mem
    cases mem
  · intro id here
    rw [(empty here).1]
    exact List.nodup_nil

theorem held (h : Layout g s) {id c : NodeId} (proper : g.Proper id) (mem : Part.node c ∈ (s.node id).parts) :
    g.base ≤ c ∧ c < s.nodes.size ∧ (s.node c).parent = some id := by
  rcases Node.node_mem_parts.1 mem with child | limb
  · obtain ⟨above, below, parent, _⟩ := h.child proper child
    exact ⟨above, below, parent⟩
  · obtain ⟨above, below, limb⟩ := h.limb proper limb
    exact ⟨above, below, limb.parent⟩

theorem isSearchable (h : Layout g s) (root : NodeId) : s.isSearchable root = true := by
  unfold Store.isSearchable
  rw [List.all_eq_true]
  intro id _
  exact Node.isComplete_iff.2 fun t mem => (h.type mem).complete

theorem search_eq (h : Layout g s) (root : NodeId) : s.search root = .ok (s.missing root) := by
  rw [Store.search, h.isSearchable root]
  rfl

/-- A symbol found missing is one of the document's. -/
theorem lt_top_of_missing (h : Layout g s) {root : NodeId} {symbol : SymbolId} (mem : symbol ∈ s.missing root) :
    symbol < g.top := by
  obtain ⟨id, _, link, here, eq⟩ := (Store.mem_missing_iff s root symbol).1 mem
  obtain ⟨u, held, inside⟩ := Node.mem_links.1 here
  rcases (h.type held).links inside with rfl | ⟨symbol', lt, rfl⟩
  · cases eq
  · unfold Store.missingSymbol at eq
    simp only at eq
    split at eq
    · cases eq
      exact lt
    · cases eq

/-- A layout with a new child is a layout. -/
theorem sprouts (h : Layout g s) {scope : NodeId} {types : List Ty} (grown : s.Sprouts scope types t)
    (proper : g.Proper scope) (container : s.isContainer scope = true) (within : ∀ u ∈ types, u.Within g) :
    Layout g t where
  strays := grown.strays h.strays
  project_lt := h.project_lt
  base_le := Nat.le_of_lt (Nat.lt_of_le_of_lt h.base_le grown.size)
  project := by
    obtain ⟨children, eq⟩ := h.project
    by_cases here : g.project = scope
    · rw [here, grown.widened, ← here]
      exact ⟨_, by rw [Node.giveChildren_body, eq]; rfl⟩
    · exact ⟨children, by rw [grown.same h.project_lt_size here, eq]⟩
  type := fun mem => (grown.type_or_new container mem).elim h.type fun new => within _ new.2
  inline := fun {id c} improper mem => by
    have here : id ≠ scope := fun eq => improper (eq ▸ proper)
    have inside : id < s.nodes.size := by
      by_contra outside
      exact improper (Or.inr (Nat.le_trans h.base_le (Nat.le_of_not_lt outside)))
    exact h.inline improper (grown.same inside here ▸ mem)
  child := fun {id c} proper' mem => by
    rw [grown.children container] at mem
    have old : c ∈ s.children id → g.base ≤ c ∧ c < t.nodes.size ∧ (t.node c).parent = some id ∧
        ∃ b, (t.node c).body = .declaration b := by
      intro mem
      obtain ⟨above, below, parent, declaration⟩ := h.child proper' mem
      exact ⟨above, Nat.lt_trans below grown.size, (grown.parent_same below).trans parent,
        grown.declaration_mono declaration⟩
    split at mem
    · rename_i here
      rcases List.mem_append.1 mem with mem | mem
      · exact old (here ▸ mem)
      · rw [List.mem_singleton] at mem
        subst mem
        exact ⟨h.base_le, grown.size, here ▸ grown.parent, grown.declaration⟩
    · exact old mem
  limb := fun {id c} proper' mem => by
    rcases grown.limb_or_new mem with mem | ⟨above, behind, below, limb⟩
    · obtain ⟨above, below, limb⟩ := h.limb proper' mem
      exact ⟨above, Nat.lt_trans below grown.size, grown.limbOf_mono below limb⟩
    · exact ⟨Nat.le_trans h.base_le (Nat.le_of_lt (Nat.lt_of_le_of_lt above behind)), below, limb⟩
  nodup := fun {id} proper' => by
    rw [grown.children container]
    split
    · refine List.nodup_append.2 ⟨h.nodup proper, List.nodup_singleton _, fun a mem b mem' eq => ?_⟩
      rw [List.mem_singleton] at mem'
      exact absurd (eq.trans mem') (Nat.ne_of_lt (h.child proper mem).2.1)
    · exact h.nodup proper'

end Layout

/-! ## Sound workspaces -/

/-- A workspace whose document is described, and whose tree was changed by nothing but conversions
and resolution. -/
structure Sound (g : Ground) (w : Workspace) : Prop where
  project : w.project = g.project
  plugin : w.HasPluginOnly
  catalog : Catalog g w.store
  layout : Layout g w.store
  consistent : w.index.Consistent
  bound : ∀ {symbol id}, w.nodeOf? symbol = some id →
    g.base ≤ id ∧ id < w.store.nodes.size ∧ ∃ b, (w.store.node id).body = .declaration b
  owner : ∀ {a member id}, member ∈ w.store.membersOf a → w.nodeOf? member = some id →
    ∃ id', w.nodeOf? a = some id' ∧ id ∈ w.store.children id'

namespace Sound

open Workspace

variable {w w₁ : Workspace}

theorem membersOf_congr (same : w₁.store.symbols = w.store.symbols) (symbol : SymbolId) :
    w₁.store.membersOf symbol = w.store.membersOf symbol := by
  unfold Store.membersOf Store.symbol
  rw [same]

theorem isContainer_of_bound (h : Sound g w) {symbol : SymbolId} {id : NodeId} (bound : w.nodeOf? symbol = some id) :
    w.store.isContainer id = true := by
  obtain ⟨_, _, b, eq⟩ := h.bound bound
  rw [Store.isContainer, eq]
  rfl

theorem declarationOf?_eq (h : Sound g w) (symbol : SymbolId) : w.declarationOf? symbol = w.nodeOf? symbol := by
  unfold declarationOf?
  cases eq : w.nodeOf? symbol with
  | none => rfl
  | some id =>
    obtain ⟨_, _, b, body⟩ := h.bound eq
    rw [Option.filter_some, body]
    rfl

/-- Soundness is about the tree, its bindings and the listeners. -/
theorem congr (h : Sound g w) (store : w₁.store = w.store) (project : w₁.project = w.project)
    (listeners : w₁.listeners = w.listeners) : Sound g w₁ := by
  have index : w₁.index = w.index := by
    unfold Workspace.index
    rw [store, project]
  have nodeOf? : ∀ symbol, w₁.nodeOf? symbol = w.nodeOf? symbol := fun symbol => by
    unfold Workspace.nodeOf?
    rw [index]
  refine ⟨project.trans h.project, listeners.trans h.plugin, store.symm ▸ h.catalog, store.symm ▸ h.layout,
    index.symm ▸ h.consistent, fun eq => ?_, fun mem eq => ?_⟩
  · rw [store]
    exact h.bound ((nodeOf? _).symm.trans eq)
  · rw [store] at mem ⊢
    rw [nodeOf?]
    exact h.owner mem ((nodeOf? _).symm.trans eq)

theorem quiet (h : Sound g w) (q : Quiet w w₁) : Sound g w₁ := h.congr q.store q.project q.listeners

theorem activate (h : Sound g w) (program : Option Value) : Sound g (w.activate program) := h.congr rfl rfl rfl

/-- Creating a declaration for no symbol. -/
theorem create (h : Sound g w) {scope : NodeId} (proper : g.Proper scope)
    (container : w.store.isContainer scope = true) (inside : scope < w.store.nodes.size) (kind : Kind)
    (name : Value) : w.store.Sprouts scope [] (w.create scope kind name none).2.store ∧
      Sound g (w.create scope kind name none).2 := by
  have kept : Kept w (w.create scope kind name none).2 := kept_create ..
  have grown := sprouts_create inside kind name none
  have nodeOf? : ∀ symbol, (w.create scope kind name none).2.nodeOf? symbol = w.nodeOf? symbol :=
    fun symbol => (nodeOf?_create h.consistent symbol).trans (if_neg (Option.some_ne_none _))
  refine ⟨grown, ⟨kept.project.trans h.project, kept.listeners.trans h.plugin, h.catalog.congr kept.symbols,
    h.layout.sprouts grown proper container (List.forall_mem_nil _), consistent_create h.consistent, ?_, ?_⟩⟩
  · intro symbol id eq
    rw [nodeOf?] at eq
    obtain ⟨above, below, declaration⟩ := h.bound eq
    exact ⟨above, Nat.lt_trans below grown.size, grown.declaration_mono declaration⟩
  · intro a member id mem eq
    rw [membersOf_congr kept.symbols] at mem
    rw [nodeOf?] at eq
    obtain ⟨id', bound, child⟩ := h.owner mem eq
    refine ⟨id', (nodeOf? a).trans bound, ?_⟩
    rw [grown.children container]
    split
    · rename_i here
      exact List.mem_append_left _ (here ▸ child)
    · exact child

/-- Declaring a symbol that has no declaration: a named one anywhere, a member below its owner. -/
theorem declare (h : Sound g w) {scope : NodeId} (proper : g.Proper scope)
    (container : w.store.isContainer scope = true) (inside : scope < w.store.nodes.size) {symbol : SymbolId}
    {d : Description} (described : (w.store.symbol symbol).description = some d)
    (fresh : w.nodeOf? symbol = none)
    (place : symbol < g.top ∨ ∃ a, symbol ∈ w.store.membersOf a ∧ w.nodeOf? a = some scope) :
    Sound g (w.declare scope symbol d).2 := by
  have declared := declared_declare w inside symbol d
  have grown := declared.sprouts
  have nodeOf? := declared.nodeOf? h.consistent
  refine ⟨declared.kept.project.trans h.project, declared.kept.listeners.trans h.plugin,
    h.catalog.congr declared.kept.symbols,
    h.layout.sprouts grown proper container fun u mem => h.catalog.types described mem,
    declared.consistent h.consistent, ?_, ?_⟩
  · intro symbol' id eq
    rw [nodeOf?] at eq
    split at eq
    · cases eq
      exact ⟨h.layout.base_le, grown.size, grown.declaration⟩
    · obtain ⟨above, below, declaration⟩ := h.bound eq
      exact ⟨above, Nat.lt_trans below grown.size, grown.declaration_mono declaration⟩
  · intro a member id mem eq
    rw [membersOf_congr declared.kept.symbols] at mem
    have other : ∀ {id'}, w.nodeOf? a = some id' → (w.declare scope symbol d).2.nodeOf? a = some id' := by
      intro id' bound
      rw [nodeOf?, if_neg]
      · exact bound
      · rintro rfl
        rw [fresh] at bound
        cases bound
    rw [nodeOf?] at eq
    split at eq
    · rename_i same
      subst same
      cases eq
      rcases place with lt | ⟨a', mem', bound⟩
      · exact absurd lt (Nat.not_lt_of_le (h.catalog.members mem).1)
      · cases h.catalog.owner mem mem'
        refine ⟨scope, other bound, ?_⟩
        rw [grown.children container, if_pos rfl]
        exact List.mem_append_right _ (List.mem_singleton_self _)
    · obtain ⟨id', bound, child⟩ := h.owner mem eq
      refine ⟨id', other bound, ?_⟩
      rw [grown.children container]
      split
      · rename_i here
        exact List.mem_append_left _ (here ▸ child)
      · exact child

/-- Binding a named symbol that is not bound to a declaration. -/
theorem register (h : Sound g w) (scope : NodeId) {id : NodeId} {symbol : SymbolId} (named : symbol < g.top)
    (fresh : w.nodeOf? symbol = none)
    (target : g.base ≤ id ∧ id < w.store.nodes.size ∧ ∃ b, (w.store.node id).body = .declaration b) :
    Sound g (w.register scope id (some symbol)) := by
  have kept := kept_register w scope id (some symbol)
  have nodeOf? := nodeOf?_register h.consistent scope id (some symbol)
  refine ⟨kept.project.trans h.project, kept.listeners.trans h.plugin, h.catalog.congr kept.symbols,
    h.layout.congr (nodes_register ..) ((kept.strays h.layout.strays).trans h.layout.strays.symm),
    consistent_register h.consistent .., ?_, ?_⟩
  · intro symbol' id' eq
    rw [nodeOf?] at eq
    rw [nodes_register, node_register]
    split at eq
    · cases eq
      exact target
    · exact h.bound eq
  · intro a member id' mem eq
    rw [membersOf_congr kept.symbols] at mem
    rw [nodeOf?, if_neg] at eq
    · obtain ⟨id'', bound, child⟩ := h.owner mem eq
      refine ⟨id'', ?_, child⟩
      rw [nodeOf?, if_neg]
      · exact bound
      · intro same
        cases same
        rw [fresh] at bound
        cases bound
    · intro same
      cases same
      exact absurd named (Nat.not_lt_of_le (h.catalog.members mem).1)

end Sound

end DocTree
