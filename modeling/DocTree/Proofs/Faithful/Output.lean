import DocTree.Json.Writer
import DocTree.Proofs.Faithful.Loaded
import DocTree.Proofs.Output.Closed

/-!
# Output and document

Loading is faithful: what is written of a project right after it was loaded is what its document says.

* `Recorded programs E w` : what loading programs added is where it was put; `Fresh.recorded`;
* `Faithful document g E exports children ids w` : what is known of a workspace right after a document was loaded;
  `reported_of_load`, `faithful_of_load`;
* `Faithful.renders` : nodes of exports have the forms that are written;
* `Contents.exportNumbers_eq` : the numbers of exports are read off the output;
* `erase_nodeValue_eq_read` : without numbers, the output is what the document says.
-/

namespace DocTree.Document

open Workspace

variable {g : Ground} {programs fields : List (String × Value)} {earlier exports : List Mention} {m : Mention}
  {E : List Entry} {u v w w' : Workspace} {place : NodeId → Nat} {project id : NodeId} {children ids ms : List NodeId}
  {ts : List Value} {source document : Value}

/-! ## Forms below the project -/

def Renders (programs : List (String × Value)) (w : Workspace) (place : NodeId → Nat) (form : Mention → Value) : Prop :=
  ∀ ⦃m id⦄, Represents programs w m id → Eventually (w.store.bareForm place · id) (form m)

theorem eventually_exports {form : Mention → Value} (renders : Renders programs w place form)
    (h : List.Forall₂ (Represents programs w) exports ids) :
    Eventually (fun depth => ids.map (w.store.bareForm place depth)) (exports.map form) := by
  apply eventually_map
  apply List.forall₂_map_right_iff.2
  exact (h.imp fun _ _ here => renders here).flip

theorem eventually_modules (strays : w.store.strays = .empty) {form : Mention → Value}
    (renders : Renders programs w place form) (h : Modules programs w project earlier ts ms ids) :
    Eventually (fun depth => ms.map (w.store.bareForm place depth)) (moduleForms programs form earlier ts) := by
  induction h with
  | nil => exact eventually_const []
  | cons node here _ ih =>
    have first := Store.eventually_node strays node (eventually_const []) (eventually_exports renders here)
    exact first.map₂ ih List.cons

/-! ## Numbers of exports -/

theorem childForms_nodeValueDepth {s : Store} (strays : s.strays = .empty) {n : Node} (here : s.node id = n)
    (bare : ∀ type node, Store.bodyFields type node n.body = []) (depth : Nat) :
    childForms (s.nodeValueDepth (depth + 1) id) = n.body.children.map (s.nodeValueDepth depth) := by
  have form : s.nodeValueDepth (depth + 1) id = .object (s.headFields id
      ++ Store.bodyFields (Ty.toValue s.resolve (s.nodeValueDepth depth)) (s.nodeValueDepth depth) (s.node id).body
      ++ Store.listField "children" ((s.shownChildren id).map (s.nodeValueDepth depth))) := rfl
  rw [form, Store.shownChildren_eq strays, Store.children, here, bare, List.append_nil]
  cases n.body.children <;> rfl

theorem Modules.map_numberIn (strays : w.store.strays = .empty) (h : Modules programs w project earlier ts ms ids)
    (depth : Nat) : ((ms.map (w.store.nodeValueDepth (depth + 2))).flatMap childForms).map numberIn = ids := by
  induction h with
  | nil => rfl
  | cons node _ _ ih =>
    rw [List.map_cons, List.flatMap_cons, List.map_append, ih, childForms_nodeValueDepth strays node fun _ _ => rfl,
      List.map_map]
    congr 1
    exact List.map_id _

/-- The numbers of exports are read off the output, in order. -/
theorem Contents.exportNumbers_eq (strays : w.store.strays = .empty) {name : Value}
    (root : w.store.node project = ⟨name, .project, none, .project children⟩)
    (h : Contents programs w project fields children ids) (depth : Nat) :
    exportNumbers (modulesOf fields).isSome (w.store.nodeValueDepth (depth + 3) project) = ids := by
  unfold exportNumbers
  rw [childForms_nodeValueDepth strays root fun _ _ => rfl]
  cases h with
  | exports none _ =>
    rw [none]
    show (children.map _).map numberIn = children
    rw [List.map_map]
    exact List.map_id _
  | modules some modules =>
    rw [some]
    exact modules.map_numberIn strays depth

/-! ## Loading -/

/-- What loading programs added is where it was put. -/
structure Recorded (programs : List (String × Value)) (E : List Entry) (w : Workspace) : Prop where
  listing : Listing programs E
  made : ∀ e ∈ E, e.Made 0
  stated : ∀ e ∈ E, statedKind? e.task.item.spec = some e.task.item.kind
  behind : ∀ e ∈ E, 0 < e.firstNode ∧ e.firstNode + e.nodes.length ≤ w.store.nodes.size
  nodes : ∀ e ∈ E, w.store.Holds e.firstNode e.nodes
  symbols : ∀ e ∈ E, w.store.Defines e.firstSymbol e.symbols
  declared : ∀ e ∈ E, w.store.symbol e.task.id = { e.task.item.symbol with description := e.description }

theorem Recorded.later (h : Recorded programs E w) (widens : Widens w 0 w') : Recorded programs E w' := by
  have same : ∀ X, w'.store.symbol X = w.store.symbol X := fun X => by rw [Store.symbol, Store.symbol, widens.symbols]
  refine ⟨h.listing, h.made, h.stated, fun e mem => ?_, fun e mem => ?_, fun e mem i lt => ?_, fun e mem => ?_⟩
  · exact ⟨(h.behind e mem).1, Nat.le_trans (h.behind e mem).2 widens.size⟩
  · exact widens.holds (h.behind e mem).1 (h.behind e mem).2 (h.nodes e mem)
  · exact (same _).trans (h.symbols e mem i lt)
  · exact (same _).trans (h.declared e mem)

/-- What is known of a workspace right after a document was loaded. -/
structure Faithful (document : Value) (g : Ground) (E : List Entry) (exports : List Mention) (children ids : List NodeId)
    (w : Workspace) : Prop where
  recorded : Recorded (programsOf document.fields) E w
  project : g.project = 0
  exported : Exported g (programsOf document.fields) exports w
  inOrder : exportsInOrder document.fields = newExports (programsOf document.fields) [] exports
  shown : AllShown w
  root : w.store.node 0 = ⟨(Value.lookup "name" document.fields).getD (.str "project"), .project, none, .project children⟩
  contents : Contents (programsOf document.fields) w g.project document.fields children ids

/-- Loading programs into a new project records them, and exports nothing yet. -/
theorem Fresh.recorded (fresh : Fresh w) (distinct : Distinct programs) {name : Value}
    (eq : loadPrograms source (.object programs) (w.startProject name) = .ok () u) :
    ∃ g E, Recorded programs E u ∧ g.project = 0 ∧ Exported g programs [] u ∧ AllShown u ∧
      u.store.node 0 = ⟨name, .project, none, .project []⟩ := by
  have started := fresh.started name
  have declares : ∀ p ∈ programs, Declares p.2 := by
    obtain ⟨ps, _, declared, _⟩ := bind_ok eq
    exact declares_of_declarePrograms declared
  obtain ⟨declaring, blank⟩ := fresh.declaring (programs.flatMap fun p => programSpecs p.2) name
  have listed : ∀ L, Value.object programs = .object L → ∀ p ∈ L, ∀ f ∈ programSpecs p.2,
      f ∈ programs.flatMap fun p => programSpecs p.2 := by
    rintro _ ⟨⟩ p mem f inside
    exact List.mem_flatMap.2 ⟨p, mem, inside⟩
  obtain ⟨⟨g, loaded⟩, _⟩ := (loadPrograms_meets source _ listed declaring blank).of_ok eq
  obtain ⟨E, listing, laid, made, rfl⟩ := started.entries_of_loadPrograms distinct eq
  have exported := exported_of_entries started listing made loaded
  have nodes := nodes_declaring (fresh.store_startProject name) programs
  have size : (Document.declaring (w.startProject name) programs).store.nodes.size = 1 := by
    rw [← Array.length_toList, nodes]
    rfl
  have inside : ∀ e ∈ E, e.task.id < (Document.declaring (w.startProject name) programs).store.symbols.size := by
    intro e mem
    rw [started.size_declaring, ← listing.items, List.length_map]
    exact listing.lt mem
  refine ⟨_, E, ⟨listing, made, fun e mem => ?_, fun e mem => ?_, fun e mem => holds_filled laid mem,
    fun e mem => defines_filled laid inside mem, fun e mem => symbol_of_entry started listing mem⟩, ?_, exported,
    fun X id bound => ?_, ?_⟩
  · exact stated_of_item declares (listing.items ▸ List.mem_map_of_mem mem)
  · obtain ⟨first, last⟩ := laid.bounds mem
    exact ⟨Nat.lt_of_lt_of_le (size ▸ Nat.zero_lt_one) first, last⟩
  · rw [← exported.filling.sound.project, filled_eq]
    exact started.project
  · rw [loaded.drafting.unbound] at bound
    cases bound
  · rw [node_eq_toList, nodes_filled, nodes]
    rfl

/-- Loading a document is faithful to it; at the end, this is reported. -/
theorem reported_of_load (fresh : Fresh w) (distinct : Distinct (programsOf document.fields))
    (eq : load source document w = .ok () v) : ∃ u g E exports children ids text,
      Faithful document g E exports children ids u ∧ v = u.report .info .loading text := by
  cases document with
  | object fields =>
    unfold load at eq
    obtain ⟨⟨⟩, w₁, configured, eq₁⟩ := bind_ok eq
    obtain ⟨⟨⟩, w₂, begun, eq₂⟩ := bind_ok eq₁
    obtain ⟨⟨⟩, w₃, declared, eq₃⟩ := bind_ok eq₂
    obtain ⟨⟨⟩, u, contents, eq₄⟩ := bind_ok eq₃
    cases eq₄
    cases begun
    have fresh₁ : Fresh w₁ := (loadOptions_meets fresh _).of_ok configured
    have object : (Value.lookup "programs" fields).getD (.object []) = .object (programsOf fields) := by
      unfold programsOf fieldsOf
      cases here : Value.lookup "programs" fields with
      | none => rfl
      | some p =>
        rw [here] at declared
        cases p with
        | object _ => rfl
        | _ => cases declared
    rw [object] at declared
    obtain ⟨g, E, recorded, project, exported, shown, root⟩ := fresh₁.recorded distinct declared
    obtain ⟨exports, inOrder, exported', shown', widens, children, ids, node, here⟩ := exported.contents shown contents
    rw [project] at widens node
    refine ⟨u, g, E, exports, children, ids, _,
      ⟨recorded.later widens, project, exported', inOrder, shown', ?_, here⟩, rfl⟩
    rw [node, root]
    rfl
  | _ => cases eq

theorem faithful_of_load (fresh : Fresh w) (distinct : Distinct (programsOf document.fields))
    (eq : load source document w = .ok () v) :
    ∃ u g E exports children ids, Faithful document g E exports children ids u ∧ v.store = u.store ∧
      v.project = u.project := by
  obtain ⟨u, g, E, exports, children, ids, _, faithful, rfl⟩ := reported_of_load fresh distinct eq
  exact ⟨u, g, E, exports, children, ids, faithful, rfl, rfl⟩

namespace Faithful

variable (h : Faithful document g E exports children ids w)

include h

theorem strays : w.store.strays = .empty := h.exported.filling.sound.layout.strays

theorem complete : Complete w := ⟨h.strays, fun bound => h.shown bound⟩

/-- Nodes of exports have the forms that are written. -/
theorem renders : Renders (programsOf document.fields) w ids.idxOf
    (exportForm (programsOf document.fields) (exportsInOrder document.fields)) := by
  intro m id represents
  obtain ⟨X, ⟨i, mem, rfl⟩, bound⟩ := represents
  obtain ⟨e, inside, rfl, rfl⟩ := h.recorded.listing.mem_numbered.1 mem
  have listing := h.recorded.listing
  have layout := h.exported.filling.sound.layout
  have nodup := h.contents.nodup layout (by rw [h.project, Store.children, h.root]; rfl)
  have represent := h.contents.represent
  rw [h.inOrder] at represent
  have sees := sees_of_exports h.exported (h.exported.filling.sound.project.trans h.project) (listing.knows inside)
    represent nodup
  have shown := (h.recorded.made e inside).shown h.complete (h.recorded.stated e inside) (h.recorded.nodes e inside)
    (h.recorded.symbols e inside) (h.recorded.declared e inside) sees
  unfold exportForm
  rw [specOf_item listing.distinct (mem_of_mem_starts mem), h.inOrder]
  exact shown bound

theorem eventually_read : Eventually (w.store.bareForm ids.idxOf · 0) (read document) := by
  apply Store.eventually_node h.strays h.root (eventually_const [])
  have contents := h.contents
  have renders := h.renders
  have represent := h.contents.represent
  cases contents with
  | exports none _ =>
    rw [none]
    exact eventually_exports renders represent
  | modules some modules =>
    rw [some]
    exact eventually_modules h.strays renders modules

end Faithful

end DocTree.Document

namespace DocTree.Workspace

open Document

variable {v w : Workspace} {source document : Value}

/-- Loading is faithful: right after a document was accepted, the output of the project can be written, and without
numbers it is the tree that the document describes. -/
theorem erase_nodeValue_eq_read (fresh : Fresh w) (distinct : Distinct (programsOf document.fields))
    (loaded : w.load source document = (.ok (), v)) :
    v.store.canWrite v.project = true ∧ erase (isLayered document) (v.store.nodeValue v.project) = read document := by
  have ran := ran_of_load loaded
  obtain ⟨g, ready⟩ := (load_meets fresh source document).of_ok ran
  have stands : Stands document g v := ready.stands
  obtain ⟨u, g', E, exports, children, ids, faithful, store, project⟩ := faithful_of_load fresh distinct ran
  refine ⟨ready.sound.layout.canWriteDepth _ _, ?_⟩
  have root : v.project = g'.project := project.trans faithful.exported.filling.sound.project
  obtain ⟨enough, deep⟩ := faithful.eventually_read
  have whole : v.store.nodeValue v.project = u.store.nodeValueDepth (v.store.nodes.size + enough + 3) g'.project := by
    have depth : v.store.nodes.size + enough + 3 = v.store.nodes.size + 1 + (enough + 2) := by omega
    rw [← store, ← root, ready.sound.project, depth]
    exact (Store.nodeValueDepth_eq (fun n b path => stands.lt_of_stepsTo (.refl _) path) _).symm
  rw [whole, erase, isLayered, faithful.contents.exportNumbers_eq faithful.strays (faithful.project.symm ▸ faithful.root)]
  rw [faithful.project]
  exact deep _ (by omega)

/-- A shelf refers to books, which are exported later, and to a person, which is opaque; it is exported twice. -/
def shelves : Value := .object [
  ("programs", .object [("main", .object [("symbols", .object [
    ("Shelf", .object [("kind", .str "class"), ("typeParameters", .object [("T", .str "Book")]),
      ("signatures", .list [.object [("parameters", .object [("first?", .str "T")]), ("returns", .str "Shelf")]]),
      ("members", .object [("owner", .str "Person")])]),
    ("Book", .object [("kind", .str "interface"), ("type", .str "Shelf[]")]),
    ("Person", .object [("kind", .str "interface"), ("opaque", .bool true)])])])]),
  ("modules", .list [
    .object [("name", .str "a"), ("exports", .list [.str "Shelf", .str "Person"])],
    .object [("name", .str "b"), ("exports", .list [.str "Book", .str "Shelf"])]])]

theorem erase_nodeValue_eq_read_shelves : ∃ v, withPlugin.load (.str "demo") shelves = (.ok (), v) ∧
    v.store.canWrite v.project = true ∧ erase (isLayered shelves) (v.store.nodeValue v.project) = read shelves := by
  obtain ⟨v, loaded⟩ : ∃ v, withPlugin.load (.str "demo") shelves = (.ok (), v) :=
    ⟨_, loaded_of_isOk (by decide +kernel)⟩
  exact ⟨v, loaded, erase_nodeValue_eq_read fresh_withPlugin ⟨by decide, by decide⟩ loaded⟩

/-- A reference as it is read, with the place of an export or without one. -/
def referenceTo (name : String) (target : Value) : Value :=
  .object [("type", .str "reference"), ("name", .str name), ("target", target)]

example : Json.compact (read shelves) = Json.compact (nodeForm (.str "project") "project" .project [] [
    nodeForm (.str "a") "declaration" .module [] [
      nodeForm (.str "Shelf") "declaration" .classKind [
        ("typeParameters", .list [nodeForm (.str "T") "typeParam" .typeParameter
          [("type", referenceTo "Book" (.int 1))] []]),
        ("signatures", .list [nodeForm (.str "new Shelf") "signature" .constructorSignature [
          ("parameters", .list [nodeForm (.str "first") "param" .parameter
            [("type", referenceTo "T" .null), ("isOptional", .bool true)] []]),
          ("type", referenceTo "Shelf" (.int 0))] []])]
        [nodeForm (.str "owner") "declaration" .property [("type", referenceTo "Person" .null)] []]],
    nodeForm (.str "b") "declaration" .module [] [
      nodeForm (.str "Book") "declaration" .interface
        [("type", .object [("type", .str "array"), ("elementType", referenceTo "Shelf" (.int 0))])] []]]) := by
  decide +kernel

end DocTree.Workspace
