import DocTree.Proofs.Convert.Converts
import DocTree.Proofs.Workspace.Remove
import DocTree.Proofs.Workspace.Search

/-!
# Edits of a workspace

Whatever loads or resolves a document does so by a few operations on a sound workspace. What each of
them keeps, every load and every pass keeps, also one that fails.

* `Alike w w'` : the tree and its bindings are the same;
* `Extra w extras scope kind name` : a declaration that is made for no symbol: a module or a namespace;
* `Edit g extras w made w'` : one operation, and the declarations that it makes, each with the symbol that it is for;
* `Run g extras u made w` : any number of them, and removals of what they made for no symbol; `Run.made_range` : which
  numbers the declarations made by them get;
* `Edits g extras w w'` : there is a run; `Edits.sound` : the workspace stays sound;
* `Converts.edits` : conversion is made of edits.
-/

namespace DocTree

open Workspace

variable {g : Ground} {extras extras' : Set (Kind × Value)} {w w₁ w' : Workspace} {scope id : NodeId} {symbol : SymbolId}

/-- The tree, its bindings and the listeners are the same. -/
structure Alike (w w' : Workspace) : Prop where
  store : w'.store = w.store
  project : w'.project = w.project
  bindings : w'.bindings = w.bindings
  listeners : w'.listeners = w.listeners

theorem Alike.index (h : Alike w w') : w'.index = w.index := by
  unfold Workspace.index
  rw [h.store, h.project]

theorem Alike.nodeOf? (h : Alike w w') (symbol : SymbolId) : w'.nodeOf? symbol = w.nodeOf? symbol := by
  rw [Workspace.nodeOf?, h.index, Workspace.nodeOf?]

theorem Workspace.Quiet.alike (h : Quiet w w') : Alike w w' := ⟨h.store, h.project, h.bindings, h.listeners⟩

structure Site (g : Ground) (w : Workspace) (scope : NodeId) : Prop where
  way : w.store.Reaches g.project scope
  proper : g.Proper scope
  container : w.store.isContainer scope = true

theorem Site.inside (h : Site g w scope) : scope < w.store.nodes.size := Store.lt_of_isContainer h.container

theorem Site.congr (h : Site g w scope) (store : w'.store = w.store) : Site g w' scope :=
  ⟨store ▸ h.way, h.proper, store ▸ h.container⟩

/-- A declaration that is made for no symbol: a module in the project, or a namespace in a module or in the project. Its
kind and its name are among `extras`. -/
inductive Extra (w : Workspace) (extras : Set (Kind × Value)) : NodeId → Kind → Value → Prop
  | module {name : Value} : (.module, name) ∈ extras → Extra w extras w.project .module name
  | nameSpace {scope : NodeId} {name : Value} : (w.store.node scope).isKind trackedKinds = true →
      (.nameSpace, name) ∈ extras → Extra w extras scope .nameSpace name

theorem Extra.mono {kind : Kind} {name : Value} (h : Extra w extras scope kind name) (sub : extras ⊆ extras') :
    Extra w extras' scope kind name := by
  cases h with
  | module listed => exact .module (sub listed)
  | nameSpace tracked listed => exact .nameSpace tracked (sub listed)

/-- Declarations that were made, each with the symbol that it is for. -/
abbrev Made := List (Option SymbolId × NodeId)

/-- One operation that takes nothing away from a sound workspace, with the declaration that it makes, if it makes one. -/
inductive Edit (g : Ground) (extras : Set (Kind × Value)) (w : Workspace) : Made → Workspace → Prop
  | noted {w' : Workspace} : Alike w w' → Edit g extras w [] w'
  | created {scope : NodeId} {kind : Kind} {name : Value} : Site g w scope → Extra w extras scope kind name →
      Edit g extras w [(none, w.store.nodes.size)] (w.create scope kind name none).2
  | declared {scope : NodeId} {symbol : SymbolId} {d : Description} : Site g w scope →
      (w.store.symbol symbol).description = some d → w.nodeOf? symbol = none →
      (symbol < g.top ∨ ∃ a, symbol ∈ w.store.membersOf a ∧ w.nodeOf? a = some scope) →
      Edit g extras w [(some symbol, w.store.nodes.size)] (w.declare scope symbol d).2
  | bound {scope id : NodeId} {symbol : SymbolId} : (w.store.node scope).isKind trackedKinds = true →
      symbol < g.top → w.nodeOf? symbol = none → g.base ≤ id → w.store.Reaches g.project id →
      (∃ b, (w.store.node id).body = .declaration b) → Edit g extras w [] (w.register scope id (some symbol))

/-- A run of operations from `u` to `w`, with all declarations that they make. What was made for no symbol on the way may
be removed, unless it is a module. -/
inductive Run (g : Ground) (extras : Set (Kind × Value)) (u : Workspace) : Made → Workspace → Prop
  | start : Run g extras u [] u
  | edit {made more : Made} {w w' : Workspace} : Run g extras u made w → Edit g extras w more w' →
      Run g extras u (made ++ more) w'
  | removed {made : Made} {w : Workspace} {parent id : NodeId} : Run g extras u made w →
      Removable g w.store parent id → (none, id) ∈ made → (w.store.node id).isKind trackedKinds = false →
      Run g extras u made (w.remove id)

/-- There is a run from one workspace to another one. -/
def Edits (g : Ground) (extras : Set (Kind × Value)) (w w' : Workspace) : Prop := ∃ made, Run g extras w made w'

variable {u : Workspace} {made : Made}

theorem Edit.edits (edit : Edit g extras w made w') : Edits g extras w w' := ⟨[] ++ made, .edit .start edit⟩

theorem Edits.refl (w : Workspace) : Edits g extras w w := ⟨[], .start⟩

theorem Edit.mono (edit : Edit g extras w made w') (sub : extras ⊆ extras') : Edit g extras' w made w' := by
  cases edit with
  | noted alike => exact .noted alike
  | created site extra => exact .created site (extra.mono sub)
  | declared site described unbound place => exact .declared site described unbound place
  | bound tracked named unbound above way declaration => exact .bound tracked named unbound above way declaration

theorem Run.mono (run : Run g extras u made w) (sub : extras ⊆ extras') : Run g extras' u made w := by
  induction run with
  | start => exact .start
  | edit _ edit ih => exact ih.edit (edit.mono sub)
  | removed _ removable spare plain ih => exact ih.removed removable spare plain

theorem Edits.mono (edits : Edits g extras w w') (sub : extras ⊆ extras') : Edits g extras' w w' :=
  edits.imp fun _ run => run.mono sub

/-- An operation takes no node away, and the declaration that it makes is new. -/
theorem Edit.made_range (edit : Edit g extras w made w') : w.store.nodes.size ≤ w'.store.nodes.size ∧
    (∀ id ∈ made.map Prod.snd, w.store.nodes.size ≤ id ∧ id < w'.store.nodes.size) ∧ (made.map Prod.snd).Nodup := by
  cases edit with
  | noted alike =>
    exact ⟨Nat.le_of_eq (congrArg (·.nodes.size) alike.store).symm, List.forall_mem_nil _, List.nodup_nil⟩
  | created site extra =>
    exact ⟨size_create ▸ Nat.le_succ _,
      List.forall_mem_singleton.2 ⟨Nat.le_refl _, size_create ▸ Nat.lt_succ_self _⟩, List.nodup_singleton _⟩
  | @declared scope symbol d site described unbound place =>
    have grown := (declared_declare w site.inside symbol d).sprouts.size
    exact ⟨Nat.le_of_lt grown, List.forall_mem_singleton.2 ⟨Nat.le_refl _, grown⟩, List.nodup_singleton _⟩
  | bound => exact ⟨Nat.le_of_eq (congrArg Array.size (nodes_register ..)).symm, List.forall_mem_nil _, List.nodup_nil⟩

theorem Run.made_range (run : Run g extras u made w) : u.store.nodes.size ≤ w.store.nodes.size ∧
    (∀ id ∈ made.map Prod.snd, u.store.nodes.size ≤ id ∧ id < w.store.nodes.size) ∧ (made.map Prod.snd).Nodup := by
  induction run with
  | start => exact ⟨Nat.le_refl _, List.forall_mem_nil _, List.nodup_nil⟩
  | edit _ edit ih =>
    obtain ⟨size, before, once⟩ := ih
    obtain ⟨size', new, once'⟩ := edit.made_range
    rw [List.map_append]
    refine ⟨Nat.le_trans size size', List.forall_mem_append.2 ⟨fun id mem => ?_, fun id mem => ?_⟩,
      List.nodup_append.2 ⟨once, once', fun id mem id' mem' same => ?_⟩⟩
    · exact ⟨(before id mem).1, Nat.lt_of_lt_of_le (before id mem).2 size'⟩
    · exact ⟨Nat.le_trans size (new id mem).1, (new id mem).2⟩
    · exact Nat.not_lt_of_le (new id' mem').1 (same ▸ (before id mem).2)
  | removed _ _ _ _ ih => exact (size_remove ..).symm ▸ ih

theorem Run.trans {made' : Made} (run : Run g extras u made w) (run' : Run g extras w made' w') :
    Run g extras u (made ++ made') w' := by
  induction run' with
  | start => exact (List.append_nil made).symm ▸ run
  | edit _ edit ih => exact List.append_assoc .. ▸ ih.edit edit
  | removed _ removable spare plain ih => exact ih.removed removable (List.mem_append_right _ spare) plain

theorem Edits.trans (h : Edits g extras w w₁) (h' : Edits g extras w₁ w') : Edits g extras w w' :=
  h.elim fun _ run => h'.elim fun _ run' => ⟨_, run.trans run'⟩

theorem Alike.edits (h : Alike w w') : Edits g extras w w' := (Edit.noted h).edits

theorem Workspace.Quiet.edits (h : Quiet w w') : Edits g extras w w' := h.alike.edits

theorem edits_activate (w : Workspace) (program : Option Value) : Edits g extras w (w.activate program) :=
  Alike.edits ⟨rfl, rfl, rfl, rfl⟩

theorem Edit.sound (edit : Edit g extras w made w') (h : Sound g w) : Sound g w' := by
  cases edit with
  | noted alike => exact h.congr alike.store alike.project alike.listeners
  | created site => exact (h.create site.proper site.container site.inside _ _).2
  | declared site described unbound place =>
    exact h.declare site.proper site.container site.inside described unbound place
  | @bound scope id symbol _ named unbound above way declaration =>
    exact h.register scope named unbound
      ⟨above, h.layout.lt_of_reaches way h.layout.project_lt_size, declaration⟩

theorem Run.sound (run : Run g extras u made w) (h : Sound g u) : Sound g w := by
  induction run with
  | start => exact h
  | edit _ edit ih => exact edit.sound ih
  | removed _ removable _ _ ih => exact ih.remove removable

theorem Edits.sound (edits : Edits g extras w w') (h : Sound g w) : Sound g w' := edits.elim fun _ run => run.sound h

theorem Edit.symbols (edit : Edit g extras w made w') : w'.store.symbols = w.store.symbols := by
  cases edit with
  | noted alike => exact congrArg Store.symbols alike.store
  | created => exact (kept_create ..).symbols
  | declared site => exact (declared_declare w site.inside _ _).kept.symbols
  | bound => exact (kept_register ..).symbols

theorem Run.symbols (run : Run g extras u made w) : w.store.symbols = u.store.symbols := by
  induction run with
  | start => rfl
  | edit _ edit ih => exact edit.symbols.trans ih
  | removed _ _ _ _ ih => exact (kept_remove ..).symbols.trans ih

theorem Store.symbol_congr {s t : Store} (same : s.symbols = t.symbols) (X : SymbolId) : s.symbol X = t.symbol X := by
  rw [symbol, symbol, same]

/-- An operation changes a node in nothing but the children that it gives it. -/
theorem Edit.gives (edit : Edit g extras w made w') (inside : id < w.store.nodes.size) :
    ∃ ids, w'.store.node id = (w.store.node id).giveChildren ids := by
  cases edit with
  | noted alike => exact ⟨[], by rw [alike.store, Node.giveChildren_nil]⟩
  | created site => exact (sprouts_create site.inside _ _ none).gives inside
  | declared site => exact (declared_declare w site.inside _ _).sprouts.gives inside
  | bound => exact ⟨[], by rw [node_register, Node.giveChildren_nil]⟩

theorem Edit.node (edit : Edit g extras w made w') (inside : id < w.store.nodes.size) :
    w'.store.node id = { w.store.node id with body := (w'.store.node id).body } := by
  obtain ⟨ids, eq⟩ := edit.gives inside
  rw [eq]
  rfl

theorem Edit.kind (edit : Edit g extras w made w') (inside : id < w.store.nodes.size) :
    (w'.store.node id).kind = (w.store.node id).kind := by rw [edit.node inside]

theorem Edits.kind (edits : Edits g extras w w') (sound : Sound g w) (inside : id < w.store.nodes.size) :
    (w'.store.node id).kind = (w.store.node id).kind := by
  obtain ⟨made, run⟩ := edits
  induction run with
  | start => rfl
  | edit before edit ih => exact (edit.kind (Nat.lt_of_lt_of_le inside before.made_range.1)).trans ih
  | removed before removable _ _ ih =>
    exact ((removable.cut (before.sound sound).layout).name_kind id).2.trans ih

/-! ## Conversion -/

theorem Workspace.Hosts.site {symbols : List SymbolId} (h : Hosts g w scope symbols)
    (way : w.store.Reaches g.project scope) : Site g w scope := ⟨way, h.proper, h.container⟩

/-- Conversion in a scope of the tree is made of edits. -/
theorem Workspace.Converts.edits {symbols : List SymbolId} (converts : Converts w scope symbols w')
    (hosts : Hosts g w scope symbols) (way : w.store.Reaches g.project scope) : Edits g extras w w' := by
  induction converts with
  | nil w scope => exact .refl w
  | known _ _ ih => exact ih (hosts.rest hosts.sound ((Quiet.refl _).extends _)) way
  | @undescribed w w' scope symbol symbols _ _ _ ih =>
    have q := quiet_report w .debug .conversion ((w.store.symbol symbol).display ++ " has no declaration, skipping")
    exact q.edits.trans (ih ((hosts.rest hosts.sound ((Quiet.refl w).extends scope)).quiet q) way)
  | @fresh w w₁ w' scope symbol symbols d unbound described members _ ih ih' =>
    rw [hosts.sound.declarationOf?_eq] at unbound
    have q := quiet_announce (w.declare scope symbol d).2 scope w.store.nodes.size
    obtain ⟨first, nodeOf?⟩ := extends_announced hosts unbound described
    have inner := (hosts.declared unbound described).quiet q
    have both := Converted.with_owner hosts unbound described (members.spec inner)
    have way' : ((w.declare scope symbol d).2.announce scope w.store.nodes.size).store.Reaches scope
        w.store.nodes.size := (first.fresh unbound ((nodeOf? symbol).trans (if_pos rfl))).2.1
    have declared : Edit g extras w _ (w.declare scope symbol d).2 :=
      .declared (hosts.site way) described unbound (hosts.place symbol List.mem_cons_self)
    refine (declared.edits.trans q.edits).trans ((ih inner ((first.grows.reaches way).trans way')).trans ?_)
    exact ih' (hosts.rest (members.spec inner).sound both) (both.grows.reaches way)

end DocTree
