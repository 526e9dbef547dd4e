import DocTree.Proofs.Resolve.Bindings

/-!
# What declarations were created for

The store keeps every node that was ever made, so that what was created, and for whom, can be read off it at any time.

* `MadeFor w X id` : the node is the declaration of the symbol `X`;
* `Spare w extras id` : the node was made for no symbol: it is a module or a namespace;
* `Accounted extras u made w` : everything that was created since `u` is one or the other; `Run.accounted`;
* `Once extras u w` : nothing is there twice; `once_of_opened` : so it is after any number of passes.
-/

namespace DocTree

open Workspace

variable {g : Ground} {extras : Set (Kind × Value)} {u w w' : Workspace} {id : NodeId} {X : SymbolId} {made : Made}

/-- A node is the declaration of a symbol: it was the first symbol bound to it, and it gave it its kind and its name. -/
structure Workspace.MadeFor (w : Workspace) (X : SymbolId) (id : NodeId) : Prop where
  first : (w.index.symbolsOf id).head? = some X
  described : (w.store.symbol X).description.isSome
  kind : (w.store.node id).kind = (w.store.symbol X).kind
  name : (w.store.node id).name = (w.store.symbol X).name

/-- A node that was made for no symbol: a module or a namespace in its place, or a namespace that was removed. -/
inductive Workspace.Spare (w : Workspace) (extras : Set (Kind × Value)) (id : NodeId) : Prop
  | inside {scope : NodeId} : (w.store.node id).parent = some scope →
      Extra w extras scope (w.store.node id).kind (w.store.node id).name → w.Spare extras id
  | removed : (w.store.node id).parent = none → (w.store.node id).kind = .nameSpace →
      (.nameSpace, (w.store.node id).name) ∈ extras → w.Spare extras id

/-- The declarations that were created since `u`. -/
def Workspace.Created (u w : Workspace) (id : NodeId) : Prop :=
  u.store.nodes.size ≤ id ∧ ∃ b, (w.store.node id).body = .declaration b

/-- What was made since `u` is listed, each with the symbol that it was made for. -/
structure Accounted (extras : Set (Kind × Value)) (u : Workspace) (made : Made) (w : Workspace) : Prop where
  listed : ∀ {id}, u.Created w id → ∃ owner, (owner, id) ∈ made
  spare : ∀ {id}, (none, id) ∈ made → w.Spare extras id
  owned : ∀ {X id}, (some X, id) ∈ made → w.MadeFor X id

/-! ## Operations -/

theorem Workspace.MadeFor.mono (h : w.MadeFor X id) (symbols : w'.store.symbols = w.store.symbols)
    (bound : w.index.symbolsOf id <+: w'.index.symbolsOf id)
    (name : (w'.store.node id).name = (w.store.node id).name)
    (kind : (w'.store.node id).kind = (w.store.node id).kind) : w'.MadeFor X id := by
  have symbol := Store.symbol_congr symbols X
  obtain ⟨more, eq⟩ := bound
  refine ⟨?_, symbol ▸ h.described, kind.trans (symbol ▸ h.kind), name.trans (symbol ▸ h.name)⟩
  rw [← eq, List.head?_append, h.first]
  rfl

theorem Extra.congr {scope : NodeId} {kind : Kind} {name : Value} (h : Extra w extras scope kind name)
    (project : w'.project = w.project) (tracked : (w.store.node scope).isKind trackedKinds = true →
      (w'.store.node scope).isKind trackedKinds = true) : Extra w' extras scope kind name := by
  cases h with
  | module listed => exact project ▸ .module listed
  | nameSpace here named => exact .nameSpace (tracked here) named

theorem Edit.project (edit : Edit g extras w made w') : w'.project = w.project := by
  cases edit with
  | noted alike => exact alike.project
  | created => exact (kept_create ..).project
  | declared site => exact (declared_declare w site.inside _ _).kept.project
  | bound => exact (kept_register ..).project

theorem Edit.tracked (edit : Edit g extras w made w') (tracked : (w.store.node id).isKind trackedKinds = true) :
    (w'.store.node id).isKind trackedKinds = true := by
  by_cases inside : id < w.store.nodes.size
  · rwa [Node.isKind, edit.kind inside]
  · rw [Store.node_of_size_le (Nat.le_of_not_lt inside)] at tracked
    cases tracked

theorem Workspace.Spare.edit (h : w.Spare extras id) (edit : Edit g extras w made w') (inside : id < w.store.nodes.size) :
    w'.Spare extras id := by
  have node := edit.node inside
  cases h with
  | inside hangs extra =>
    refine .inside (by rw [node, hangs]) ?_
    rw [node]
    exact extra.congr edit.project edit.tracked
  | removed free kind named => exact .removed (by rw [node, free]) (by rw [node, kind]) (by rwa [node])

/-- What is no module is a namespace. -/
theorem Workspace.Spare.nameSpace (h : w.Spare extras id) (plain : (w.store.node id).isKind trackedKinds = false) :
    (w.store.node id).kind = .nameSpace ∧ (.nameSpace, (w.store.node id).name) ∈ extras := by
  cases h with
  | inside hangs extra =>
    rw [Node.isKind] at plain
    generalize (w.store.node id).kind = kind at extra plain
    generalize (w.store.node id).name = name at extra
    cases extra with
    | module => exact absurd plain (by decide)
    | nameSpace _ named => exact ⟨rfl, named⟩
  | removed _ kind named => exact ⟨kind, named⟩

theorem Index.prefix_bind (i : Index) (id id' : NodeId) (symbol : SymbolId) :
    i.symbolsOf id' <+: (i.bind id symbol).symbolsOf id' := by
  unfold bind symbolsOf
  simp only [OrdMap.find?_insert]
  split
  · rename_i here
    rw [Option.getD_some, here]
    split
    · exact List.prefix_rfl
    · exact List.prefix_append ..
  · exact List.prefix_rfl

theorem Edit.symbolsOf_prefix (edit : Edit g extras w made w') (id : NodeId) :
    w.index.symbolsOf id <+: w'.index.symbolsOf id := by
  cases edit with
  | noted alike => rw [alike.index]
  | created =>
    rw [index_create]
    exact List.prefix_rfl
  | declared =>
    rw [symbolsOf_declare]
    exact Index.prefix_bind ..
  | bound =>
    rw [index_register]
    exact Index.prefix_bind ..

theorem Edit.declaration_iff (edit : Edit g extras w made w') (inside : id < w.store.nodes.size) :
    (∃ b, (w'.store.node id).body = .declaration b) ↔ ∃ b, (w.store.node id).body = .declaration b := by
  obtain ⟨ids, eq⟩ := edit.gives inside
  rw [eq]
  exact Node.mapChildren_eq_declaration

theorem Filed.symbolsOf_eq_nil (h : Filed w) (sound : Sound g w) (outside : w.store.nodes.size ≤ id) :
    w.index.symbolsOf id = [] := by
  refine List.eq_nil_iff_forall_not_mem.2 fun symbol mem => ?_
  obtain ⟨_, inside, _⟩ := sound.bound (h.symbols.1 mem)
  exact Nat.not_lt_of_le outside inside

theorem Filed.madeFor_declare {scope : NodeId} {d : Description} (h : Filed w) (sound : Sound g w)
    (site : Site g w scope) (described : (w.store.symbol X).description = some d) :
    (w.declare scope X d).2.MadeFor X w.store.nodes.size := by
  have made := declared_declare w site.inside X d
  have symbol := Store.symbol_congr made.kept.symbols X
  obtain ⟨b, node⟩ := made.declaration
  refine ⟨?_, by rw [symbol, described]; rfl, by rw [symbol, node], by rw [symbol, node]⟩
  rw [symbolsOf_declare, Index.bind, Index.symbolsOf, h.symbolsOf_eq_nil sound (Nat.le_refl _), OrdMap.find?_insert,
    if_pos rfl]
  rfl

/-- What an operation makes is what it says it makes. -/
theorem Edit.accounted (edit : Edit g extras w made w') (sound : Sound g w) (filed : Filed w) :
    Accounted extras w made w' := by
  have nothing : ∀ {id}, w'.store.nodes.size = w.store.nodes.size → ¬w.Created w' id := fun size created =>
    Nat.not_lt_of_le created.1 (size ▸ Store.lt_of_declaration created.2)
  cases edit with
  | noted alike =>
    have size := congrArg (·.nodes.size) alike.store
    exact ⟨fun created => absurd created (nothing size), nofun, nofun⟩
  | @created scope kind name site extra =>
    have edit := Edit.created site extra
    have last := (node_create (w := w) kind name none site.inside w.store.nodes.size).trans (if_pos rfl)
    refine ⟨fun {id} created => ⟨none, ?_⟩, fun {id} mem => ?_, fun mem => ?_⟩
    · have below := Store.lt_of_declaration created.2
      rw [size_create] at below
      exact List.mem_singleton.2 (congrArg _ (Nat.le_antisymm (Nat.le_of_lt_succ below) created.1))
    · cases List.mem_singleton.1 mem
      exact .inside (by rw [last]) (by rw [last]; exact extra.congr edit.project edit.tracked)
    · cases List.mem_singleton.1 mem
  | @declared scope symbol d site described unbound place =>
    have declared := declared_declare w site.inside symbol d
    refine ⟨fun {id} created => ⟨some symbol, ?_⟩, fun mem => ?_, fun mem => ?_⟩
    · rcases Nat.lt_or_eq_of_le created.1 with above | here
      · exact created.2.elim fun b eq => absurd eq (declared.only above)
      · exact List.mem_singleton.2 (congrArg _ here.symm)
    · cases List.mem_singleton.1 mem
    · cases List.mem_singleton.1 mem
      exact filed.madeFor_declare sound site described
  | bound =>
    exact ⟨fun created => absurd created (nothing (congrArg Array.size (nodes_register ..))), nofun, nofun⟩

theorem Accounted.trans {more : Made} (h : Accounted extras u made w) (run : Run g extras u made w)
    (edit : Edit g extras w more w') (h' : Accounted extras w more w') : Accounted extras u (made ++ more) w' := by
  have inside : ∀ {p}, p ∈ made → p.2 < w.store.nodes.size := fun mem =>
    (run.made_range.2.1 _ (List.mem_map_of_mem mem)).2
  refine ⟨fun {id} created => ?_, fun mem => ?_, fun {X id} mem => ?_⟩
  · by_cases old : id < w.store.nodes.size
    · exact (h.listed ⟨created.1, (edit.declaration_iff old).1 created.2⟩).imp fun _ => List.mem_append_left _
    · exact (h'.listed ⟨Nat.le_of_not_lt old, created.2⟩).imp fun _ => List.mem_append_right _
  · exact (List.mem_append.1 mem).elim (fun old => (h.spare old).edit edit (inside old)) h'.spare
  · rcases List.mem_append.1 mem with old | new
    · have node := edit.node (inside old)
      exact (h.owned old).mono edit.symbols (edit.symbolsOf_prefix id) (by rw [node]) (by rw [node])
    · exact h'.owned new

theorem Run.ne_of_made (run : Run g extras u made w) {id' : NodeId} (spare : (none, id) ∈ made)
    (owned : (some X, id') ∈ made) : id' ≠ id := by
  rintro rfl
  cases List.inj_on_of_nodup_map run.made_range.2.2 spare owned rfl

/-- A namespace that is removed is known by that; what else was created is left alone. -/
theorem Accounted.remove {parent : NodeId} (h : Accounted extras u made w) (run : Run g extras u made w)
    (sound : Sound g w) (removable : Removable g w.store parent id) (spare : (none, id) ∈ made)
    (plain : (w.store.node id).isKind trackedKinds = false) : Accounted extras u made (w.remove id) := by
  have cut := removable.cut sound.layout
  have same := cut.name_kind
  refine ⟨fun {id'} created => h.listed ⟨created.1, (cut.declaration_iff id').1 created.2⟩, fun {id'} mem => ?_,
    fun {X id'} mem => ?_⟩
  · by_cases here : id' = id
    · subst here
      obtain ⟨kind, named⟩ := (h.spare mem).nameSpace plain
      exact .removed (by rw [cut.node, if_pos rfl]) ((same id').2.trans kind) ((same id').1 ▸ named)
    · cases h.spare mem with
      | inside hangs extra =>
        refine .inside ((cut.parent_same here).trans hangs) ?_
        rw [(same id').1, (same id').2]
        exact extra.congr rfl fun tracked => by rwa [Node.isKind, (same _).2]
      | removed free kind named =>
        exact .removed ((cut.parent_same here).trans free) ((same id').2.trans kind) ((same id').1 ▸ named)
  · refine (h.owned mem).mono (kept_remove w id).symbols ?_ (same id').1 (same id').2
    rw [index_remove_bare (removable.inside sound.layout) removable.bare, symbolsOf_forget,
      if_neg (run.ne_of_made spare mem)]

/-- Everything that a run creates is accounted for, and stays so when something is removed. -/
theorem Run.accounted (run : Run g extras u made w) (sound : Sound g u) (filed : Filed u) : Accounted extras u made w := by
  induction run with
  | start =>
    exact ⟨fun created => absurd (Store.lt_of_declaration created.2) (Nat.not_lt_of_le created.1), nofun, nofun⟩
  | edit before edit ih =>
    exact ih.trans before edit (edit.accounted (before.sound sound) (before.filed sound filed))
  | removed before removable spare plain ih => exact ih.remove before (before.sound sound) removable spare plain

theorem Edits.created (edits : Edits g extras w w') (sound : Sound g w) (created : u.Created w id) : u.Created w' id := by
  obtain ⟨made, run⟩ := edits
  induction run with
  | start => exact created
  | edit before edit ih => exact ⟨created.1, (edit.declaration_iff (Store.lt_of_declaration ih.2)).2 ih.2⟩
  | removed before removable _ _ ih =>
    exact ⟨created.1, ((removable.cut (before.sound sound).layout).declaration_iff id).2 ih.2⟩

/-! ## After any number of passes -/

/-- Nothing is there twice. Bindings and indexes say once what every symbol resolves to, which was created after the
programs were read, in `u`; and whatever was created since then is for no symbol, or for one that had nothing else
created for it. -/
structure Once (extras : Set (Kind × Value)) (u w : Workspace) : Prop where
  exact : Exact w
  unbound : ∀ X, u.nodeOf? X = none
  resolved : ∀ X id, w.nodeOf? X = some id → u.Created w id
  created : ∀ id, u.Created w id → w.Spare extras id ∨ ∃! X, w.MadeFor X id
  once : ∀ X id id', w.MadeFor X id → w.MadeFor X id' → id = id'

theorem Workspace.MadeFor.bound (h : w.MadeFor X id) (exact : Exact w) : w.nodeOf? X = some id :=
  (exact.symbols id X).1 (List.mem_of_mem_head? h.first)

theorem Document.Origin.once (origin : Document.Origin g u) (edits : Edits g extras u w) : Once extras u w := by
  obtain ⟨made, run⟩ := edits
  have exact := (run.filed origin.sound origin.filed).exact
  have accounted := run.accounted origin.sound origin.filed
  refine ⟨exact, origin.unbound, fun X id bound => ?_, fun id created => ?_, fun X id id' h h' => ?_⟩
  · obtain ⟨above, _, declaration⟩ := (run.sound origin.sound).bound bound
    exact ⟨origin.base ▸ above, declaration⟩
  · obtain ⟨_ | X, mem⟩ := accounted.listed created
    · exact Or.inl (accounted.spare mem)
    · have mine := accounted.owned mem
      exact Or.inr ⟨X, mine, fun Y other => Option.some.inj (other.first.symm.trans mine.first)⟩
  · exact Option.some.inj ((h.bound exact).symm.trans (h'.bound exact))

/-- Nothing is there twice, whatever document was loaded, after any number of passes with any options, also where
some of them failed. What is created for no symbol are the modules that the document lists, and namespaces named as the
options say when a pass starts. Later passes keep in the store whatever was created. -/
theorem once_of_opened {document : Value} (opened : w.Opened document) (commands : List Command) :
    ∃ u, Document.ProgramsRead document u ∧
      Once (Document.listedModules document ∪ w.namespaces commands) u (w.execute commands).2 ∧
      ∀ more id, u.Created (w.execute commands).2 id → u.Created ((w.execute commands).2.execute more).2 id := by
  obtain ⟨g, u, read, origin, edits, stands⟩ := opened.edited commands
  exact ⟨u, read, origin.once edits, fun more id created => (stands.execute more).2.created stands.sound created⟩

/-- After a document was loaded, and after two passes over it. -/
theorem once_of_opened_leftover : besideLeftover.Opened leftover ∧ ∀ commands ∈ [[], [.resolve, .resolve]],
    ∃ u, Document.ProgramsRead leftover u ∧
      Once (Document.listedModules leftover ∪ besideLeftover.namespaces commands) u
        (besideLeftover.execute commands).2 ∧
      ∀ more id, u.Created (besideLeftover.execute commands).2 id →
        u.Created ((besideLeftover.execute commands).2.execute more).2 id :=
  ⟨opened_leftover, fun commands _ => once_of_opened opened_leftover commands⟩

end DocTree
