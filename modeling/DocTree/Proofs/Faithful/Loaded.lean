import DocTree.Proofs.Faithful.Describe
import DocTree.Proofs.Faithful.Exports
import DocTree.Proofs.Renumber.Programs

/-!
# What is loaded, as it is written

* `holds_filled`, `defines_filled` : what an entry adds is found where it was put;
* `Entry.Made.shown` : a symbol that was described is shown as it is written;
* `sees_of_exports` : names lead to the places of exports;
* `Contents programs w project fields children ids` : what hangs below the project, and the nodes of all exports;
* `loadPrograms_exported`, `loadContents_contents` : loading leads there.
-/

namespace DocTree.Document

open Workspace

variable {g : Ground} {programs fields : List (String × Value)} {exports : List Mention} {m : Mention} {X : SymbolId}
  {e : Entry} {E : List Entry} {u v w w' : Workspace} {place : NodeId → Nat} {o : Outlook} {id : NodeId}

/-! ## Entries -/

theorem holds_filled (laid : Laid w E) (mem : e ∈ E) : (filled w E).store.Holds e.firstNode e.nodes := by
  intro i lt
  have start : (e, e.firstNode) ∈ starts (fun e : Entry => e.nodes.length) w.store.nodes.toList.length E := by
    rw [Array.length_toList, laid.nodes]
    exact List.mem_map_of_mem mem
  rw [node_eq_toList, nodes_filled, getElem?_of_mem_starts start lt, List.getElem?_eq_getElem lt]
  rfl

theorem defines_filled (laid : Laid w E) (inside : ∀ e ∈ E, e.task.id < w.store.symbols.size) (mem : e ∈ E) :
    (filled w E).store.Defines e.firstSymbol e.symbols := by
  intro i lt
  have start : (e, e.firstSymbol) ∈ starts (fun e : Entry => e.symbols.length) w.store.symbols.toList.length E := by
    rw [Array.length_toList, laid.symbols]
    exact List.mem_map_of_mem mem
  have above := (within_of_mem_starts start).1
  rw [Array.length_toList] at above
  rw [symbol_filled_of_ge inside (Nat.le_add_right_of_le above), getElem?_of_mem_starts start lt,
    List.getElem?_eq_getElem lt]
  rfl

/-- Nodes of entries come behind the ones from before. -/
theorem Laid.bounds (laid : Laid w E) (mem : e ∈ E) :
    w.store.nodes.size ≤ e.firstNode ∧ e.firstNode + e.nodes.length ≤ (filled w E).store.nodes.size := by
  have start : (e, e.firstNode) ∈ starts (fun e : Entry => e.nodes.length) w.store.nodes.size E := by
    rw [laid.nodes]
    exact List.mem_map_of_mem mem
  have size : (filled w E).store.nodes.size = w.store.nodes.size + (E.map fun e => e.nodes.length).sum := by
    rw [← Array.length_toList, nodes_filled, List.length_append, sum_map_length, Array.length_toList]
  rw [size]
  exact within_of_mem_starts start

theorem extended_inj {ns ns' : List Node} {ss ss' : List Symbol} (same : w.extended ns ss = w.extended ns' ss') :
    ns = ns' ∧ ss = ss' := by
  have nodes := congrArg (fun w : Workspace => w.store.nodes.toList) same
  have symbols := congrArg (fun w : Workspace => w.store.symbols.toList) same
  simp only [Workspace.nodes_extended, Workspace.symbols_extended] at nodes symbols
  exact ⟨List.append_cancel_left nodes, List.append_cancel_left symbols⟩

/-- A symbol that was described is shown as it is written, wherever it has a node. -/
theorem Entry.Made.shown {project : NodeId} (made : e.Made project) (complete : Complete v)
    (stated : statedKind? e.task.item.spec = some e.task.item.kind) (nodes : v.store.Holds e.firstNode e.nodes)
    (symbols : v.store.Defines e.firstSymbol e.symbols)
    (here : v.store.symbol e.task.id = { e.task.item.symbol with description := e.description })
    (sees : (scopeOf project e.task).Sees v place o) :
    Shown v place e.task.id (symbolForm o (.str e.task.item.name) e.task.item.spec) := by
  cases marked : isOpaque e.task.item.spec with
  | true =>
    intro id bound
    cases complete.shows bound with
    | intro described =>
      rw [here, made.blank marked] at described
      cases described
  | false =>
    obtain ⟨w, d, first, first', described, ran⟩ := made.described marked
    obtain ⟨ns, ss, same, told⟩ := describe_tells complete sees _ _ _ w ran
    obtain ⟨rfl, rfl⟩ := extended_inj same
    rw [first, first'] at told
    rw [described] at here
    exact (told nodes symbols).shown complete stated here

/-! ## Names -/

theorem represents_unique (distinct : Distinct programs) {id' : NodeId} (h : Represents programs v m id)
    (h' : Represents programs v m id') : id = id' := by
  obtain ⟨X, denotes, bound⟩ := h
  obtain ⟨Y, denotes', bound'⟩ := h'
  cases (denotes.iff_of_distinct distinct denotes').1 rfl
  exact Option.some.inj (bound.symm.trans bound')

/-- Names lead to the places of exports. -/
theorem sees_of_exports (h : Exported g programs exports v) (project : v.project = 0) {t : Task}
    (knows : Knows 0 programs t.item.program t.program) {ids : List NodeId}
    (represent : List.Forall₂ (Represents programs v) (newExports programs [] exports) ids) (nodup : ids.Nodup) :
    (scopeOf 0 t).Sees v ids.idxOf ⟨fun name => (newExports programs [] exports).idxOf? (t.item.program, name), []⟩ := by
  refine ⟨project.symm, rfl, fun name => ?_⟩
  have absent : (∀ X, Denotes programs (t.item.program, name) X → v.nodeOf? X = none) →
      (newExports programs [] exports).idxOf? (t.item.program, name) = none := by
    intro unbound
    rw [List.idxOf?_eq_none_iff]
    intro mem
    obtain ⟨id, _, X, denotes, bound⟩ := exists_of_forall₂ represent mem
    rw [unbound X denotes] at bound
    cases bound
  show ((t.program.symbols.find? (.text name)).bind v.nodeOf?).map ids.idxOf =
    (newExports programs [] exports).idxOf? (t.item.program, name)
  cases found : t.program.symbols.find? (.text name) with
  | none =>
    rw [absent fun X denotes => absurd (found.symm.trans ((knows.find?_iff name).2 denotes)) nofun]
    rfl
  | some X =>
    have denotes := (knows.find?_iff name).1 found
    cases bound : v.nodeOf? X with
    | none =>
      rw [absent fun Y denotes' => (denotes.iff_of_distinct h.distinct denotes').1 rfl ▸ bound, Option.bind_some, bound]
      rfl
    | some id =>
      have mem : (t.item.program, name) ∈ newExports programs [] exports := by
        obtain ⟨mem, transparent⟩ := (h.bound denotes).1 (by rw [bound]; rfl)
        exact mem_newExports.2 ⟨mem, transparent, List.not_mem_nil⟩
      have functional : ∀ {m id id'}, Represents programs v m id → Represents programs v m id' → id = id' :=
        represents_unique h.distinct
      rw [idxOf?_of_forall₂ (R := Represents programs v) functional represent nodup ⟨X, denotes, bound⟩ mem,
        Option.bind_some, bound]
      rfl

/-! ## Programs -/

theorem stated_of_item (declares : ∀ p ∈ programs, Declares p.2) {i : Item} (mem : i ∈ items programs) :
    statedKind? i.spec = some i.kind := by
  obtain ⟨p, inside, mem⟩ := List.mem_flatMap.1 mem
  obtain ⟨s, listed, rfl⟩ := List.mem_map.1 mem
  obtain ⟨kind, stated⟩ := Option.isSome_iff_exists.1 ((declares p inside).stated s listed)
  unfold Item.kind
  rw [stated]
  rfl

theorem find?_of_task (distinct : Distinct programs) {t : Task} (mem : t ∈ tasks 0 programs) :
    (tableOf (placed 0 programs) .empty).find? (.text t.item.program) = some t.program := by
  obtain ⟨b, here, mem⟩ := List.mem_flatMap.1 mem
  obtain ⟨e, inside, rfl⟩ := List.mem_map.1 mem
  rw [find?_tableOf distinct]
  exact ⟨b, here, by rw [program_of_mem_itemsOf (mem_of_mem_starts inside)], rfl⟩

theorem symbol_of_entry (started : Started w) (listing : Listing programs E) (mem : e ∈ E) :
    (filled (declaring w programs) E).store.symbol e.task.id =
      { e.task.item.symbol with description := e.description } := by
  have inside : ∀ e ∈ E, e.task.id < (declaring w programs).store.symbols.size := fun e mem => by
    rw [started.size_declaring, ← listing.items, List.length_map]
    exact listing.lt mem
  have symbol := started.symbol_declaring (listing.mem_numbered.2 ⟨e, mem, rfl, rfl⟩)
  rw [symbol_filled_of_mem mem listing.nodup inside (by rw [symbol]; rfl), symbol]

/-- When all programs are loaded, nothing is exported yet. -/
theorem exported_of_entries (started : Started w) (listing : Listing programs E) (made : ∀ e ∈ E, e.Made 0)
    {specs : List (String × Value)} (loaded : Loaded specs g (filled (declaring w programs) E)) :
    Exported (g.upTo (filled (declaring w programs) E).store.nodes.size) programs [] (filled (declaring w programs) E) := by
  have known : (filled (declaring w programs) E).known = .empty := by
    rw [filled_eq]
    exact started.known
  have table : (filled (declaring w programs) E).programs = tableOf (placed 0 programs) .empty := by
    rw [filled_eq]
    rfl
  refine ⟨⟨loaded.drafting.sound, tracked_of_drafting loaded.drafting known, loaded.programs⟩, listing.distinct, table,
    fun {m X} denotes => ?_, fun {m X} denotes => ?_⟩
  · obtain ⟨i, here, rfl⟩ := denotes
    obtain ⟨e, mem, rfl, rfl⟩ := listing.mem_numbered.1 here
    have task : e.task ∈ tasks 0 programs := listing.tasks ▸ List.mem_map_of_mem mem
    have found := find?_of_task listing.distinct task
    constructor
    · rw [← table] at found
      exact loaded.programs found _ _ (((listing.knows mem).find?_iff _).2 ⟨e.task.item, here, rfl⟩)
    · rw [symbol_of_entry started listing mem, specOf_item listing.distinct (mem_of_mem_starts here)]
      show e.description.isSome ↔ _
      cases marked : isOpaque e.task.item.spec with
      | true => simp [(made e mem).blank marked]
      | false =>
        obtain ⟨_, d, _, _, described, _⟩ := (made e mem).described marked
        simp [described]
  · rw [loaded.drafting.unbound]
    simp

/-! ## Contents -/

/-- What hangs below the project: exports, or modules with exports in them; `ids` are the nodes of all exports. -/
inductive Contents (programs : List (String × Value)) (w : Workspace) (project : NodeId) (fields : List (String × Value)) :
    List NodeId → List NodeId → Prop
  | exports {ids : List NodeId} : modulesOf fields = none →
      List.Forall₂ (Represents programs w) (newExports programs [] (exportsOf programs fields)) ids →
      Contents programs w project fields ids ids
  | modules {ts : List Value} {ms ids : List NodeId} : modulesOf fields = some ts →
      Modules programs w project [] ts ms ids → Contents programs w project fields ms ids

theorem Modules.represent {project : NodeId} {earlier : List Mention} {ts : List Value} {ms ids : List NodeId}
    (h : Modules programs w project earlier ts ms ids) :
    List.Forall₂ (Represents programs w)
      (newExports programs earlier (ts.flatMap fun t => exportsOf programs t.fields)) ids := by
  induction h with
  | nil => exact .nil
  | cons _ here _ ih =>
    rw [List.flatMap_cons, newExports_append]
    exact List.rel_append here ih

theorem Modules.ids_eq {project : NodeId} {earlier : List Mention} {ts : List Value} {ms ids : List NodeId}
    (h : Modules programs w project earlier ts ms ids) : ids = ms.flatMap w.store.children := by
  induction h with
  | nil => rfl
  | cons node _ _ ih =>
    rw [List.flatMap_cons, ← ih, Store.children, node]
    rfl

/-- The nodes of modules are nodes of their own, and so are those in them. -/
theorem Modules.nodup {earlier : List Mention} {ts : List Value} {ms ids : List NodeId}
    (h : Modules programs w g.project earlier ts ms ids) (layout : Layout g w.store)
    (children : w.store.children g.project = ms) : ids.Nodup := by
  have proper : ∀ m ∈ ms, g.Proper m := fun m mem => Or.inr (layout.child (Or.inl rfl) (children.symm ▸ mem)).1
  have distinct : ms.Nodup := children ▸ layout.nodup (Or.inl rfl)
  rw [h.ids_eq]
  apply List.nodup_flatMap.2
  refine ⟨fun m mem => layout.nodup (proper m mem), ?_⟩
  apply List.Nodup.pairwise_of_forall_ne distinct
  intro m mem n mem' ne c inside inside'
  obtain ⟨_, _, parent, _⟩ := layout.child (proper m mem) inside
  obtain ⟨_, _, parent', _⟩ := layout.child (proper n mem') inside'
  exact ne (Option.some.inj (parent.symm.trans parent'))

theorem Contents.represent {children ids : List NodeId} (h : Contents (programsOf fields) w g.project fields children ids) :
    List.Forall₂ (Represents (programsOf fields) w) (exportsInOrder fields) ids := by
  unfold exportsInOrder
  cases h with
  | exports none here =>
    rw [none]
    exact here
  | modules some modules =>
    rw [some]
    exact modules.represent

theorem Contents.nodup {children ids : List NodeId} (h : Contents programs w g.project fields children ids)
    (layout : Layout g w.store) (here : w.store.children g.project = children) : ids.Nodup := by
  cases h with
  | exports _ _ => exact here ▸ layout.nodup (Or.inl rfl)
  | modules _ modules => exact modules.nodup layout here

/-- Loading contents puts them below the project, exports in order. -/
theorem Exported.contents (h : Exported g (programsOf fields) [] u) (shown : AllShown u) {source : Value}
    (eq : loadContents source fields u = .ok () v) : ∃ exports,
      exportsInOrder fields = newExports (programsOf fields) [] exports ∧ Exported g (programsOf fields) exports v ∧
        AllShown v ∧ Widens u g.project v ∧ ∃ children ids,
          v.store.node g.project = (u.store.node g.project).giveChildren children ∧
            Contents (programsOf fields) v g.project fields children ids := by
  unfold loadContents at eq
  cases modules : (Value.lookup "modules" fields).getD .null with
  | null =>
    have none : modulesOf fields = none := by
      unfold modulesOf
      rw [modules]
    simp only [modules] at eq
    obtain ⟨p, u, found, rest⟩ := bind_ok eq
    obtain ⟨rfl, knows⟩ := knows_of_programNamed h.distinct h.table found
    obtain ⟨_, _, got, last⟩ := bind_ok rest
    cases got
    rw [h.filling.sound.project] at last
    obtain ⟨h', widens, ⟨ids, node, represent⟩, fresh⟩ :=
      h.exports knows (Or.inl rfl) h.filling.isContainer_project (.refl _) last rfl
    refine ⟨exportsOf (programsOf fields) fields, ?_, h', shown.later h.filling.sound widens fresh, widens, ids, ids,
      node, .exports none represent⟩
    unfold exportsInOrder
    rw [none]
  | bool x | int x | float x | str x | list x | object x =>
    simp only [modules] at eq
    obtain ⟨ts, u, listed, last⟩ := bind_ok eq
    obtain ⟨rfl, parts⟩ := (parts_meets _).of_ok listed
    have some : modulesOf fields = some ts := by
      unfold modulesOf
      rw [modules]
      simp [parts]
    obtain ⟨h', shown', widens, ms, ids, node, modules'⟩ := h.modules shown last
    refine ⟨_, ?_, h', shown', widens, ms, ids, node, .modules some modules'⟩
    unfold exportsInOrder
    rw [some]
    rfl

end DocTree.Document
