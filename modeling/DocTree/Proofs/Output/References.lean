import DocTree.Proofs.Output.Closed

/-!
# What is searched and what is written

* `Node.Plain` holds of all nodes, after any number of passes: `Run.plain`;
* `Store.inspected`, `Store.serialized` : the references that a search from a node looks at, level by level,
  and those that are written with the node, depth first; `inspected_perm_serialized`;
* `Value.references` : the references in a form; `references_nodeValueDepth` : in the form of a node these are
  the forms of what is written with it;
* `Agrees s n` : search and output of a node agree; `agrees_of_reached` : they do.
-/

namespace DocTree

open Workspace

variable {g : Ground} {s : Store} {u w w' : Workspace} {scope id a b n : NodeId}

/-! ## Plain nodes -/

theorem Node.Plain.giveChildren {n : Node} (h : n.Plain) (ids : List NodeId) : (n.giveChildren ids).Plain := by
  obtain ⟨name, kind, parent, body⟩ := n
  cases body <;> exact h

theorem Node.Plain.mapChildren {n : Node} (h : n.Plain) (f : List NodeId → List NodeId) :
    ({ n with body := n.body.mapChildren f } : Node).Plain := by
  obtain ⟨name, kind, parent, body⟩ := n
  cases body <;> exact h

theorem Node.Plain.describe {n : Node} (h : n.Plain) (d : Description) (typeParameters signatures : List NodeId) :
    ({ n with body := describedBody d typeParameters signatures n.body } : Node).Plain := by
  obtain ⟨name, kind, parent, body⟩ := n
  cases body <;> exact h

theorem Workspace.Adds.plain {ns : List Node} (h : Adds w ns w') (old : ∀ id, (w.store.node id).Plain)
    (new : ∀ n ∈ ns, n.Plain) (id : NodeId) : (w'.store.node id).Plain := by
  by_cases inside : id < w.store.nodes.size
  · rw [h.same inside]
    exact old id
  · by_cases below : id < w'.store.nodes.size
    · refine new _ (h.holds.mem_of_range (List.mem_range'_1.2 ⟨Nat.le_of_not_lt inside, ?_⟩))
      rwa [← h.size]
    · rw [Store.node_of_size_le (Nat.le_of_not_lt below)]
      trivial

theorem plain_signaturesNodes (owner : Node) (parent id : NodeId) (shapes : List SignatureShape) :
    ∀ n ∈ signaturesNodes owner parent id shapes, n.Plain := by
  induction shapes generalizing id with
  | nil => exact List.forall_mem_nil _
  | cons shape shapes ih =>
    refine List.forall_mem_append.2 ⟨List.forall_mem_cons.2 ⟨⟨rfl, rfl, rfl⟩, ?_⟩, ih _⟩
    refine List.forall_mem_append.2 ⟨fun n mem => ?_, fun n mem => ?_⟩
    · obtain ⟨shape, _, rfl⟩ := List.mem_map.1 mem
      trivial
    · obtain ⟨shape, _, rfl⟩ := List.mem_map.1 mem
      trivial

theorem plain_create (old : ∀ id, (w.store.node id).Plain) (inside : scope < w.store.nodes.size) (kind : Kind)
    (name : Value) (symbol : Option SymbolId) (id : NodeId) :
    ((w.create scope kind name symbol).2.store.node id).Plain := by
  rw [node_create kind name symbol inside]
  split
  · exact ⟨rfl, rfl, rfl⟩
  · split
    · exact (old scope).giveChildren _
    · exact old id

theorem plain_populate (old : ∀ id, (w.store.node id).Plain) (inside : id < w.store.nodes.size) (d : Description)
    (id' : NodeId) : ((w.populate id d).store.node id').Plain := by
  obtain ⟨w₁, adds, eq⟩ := adds_populate w inside d
  have plain := adds.plain old (List.forall_mem_append.2 ⟨fun n mem => by
    obtain ⟨shape, _, rfl⟩ := List.mem_map.1 mem
    trivial, plain_signaturesNodes _ _ _ _⟩)
  rw [eq, Store.node_modifyBody (adds.size ▸ Nat.lt_add_right _ inside)]
  split
  · exact (plain id).describe d _ _
  · exact plain id'

theorem plain_declare (old : ∀ id, (w.store.node id).Plain) (inside : scope < w.store.nodes.size) (symbol : SymbolId)
    (d : Description) (id : NodeId) : ((w.declare scope symbol d).2.store.node id).Plain := by
  have quiet := quiet_reportForeign w (w.store.symbol symbol)
  have old' : ∀ id, ((w.reportForeign (w.store.symbol symbol)).store.node id).Plain := quiet.store.symm ▸ old
  rw [declare_snd]
  refine plain_populate (plain_create old' (quiet.store.symm ▸ inside) _ _ _) ?_ d id
  rw [size_create, quiet.store]
  exact Nat.lt_succ_self _

/-- No operation makes a node refer to a declaration that it takes after. -/
theorem Run.plain {extras : Set (Kind × Value)} {made : Made} (run : Run g extras u made w) (sound : Sound g u)
    (h : ∀ id, (u.store.node id).Plain) (id : NodeId) : (w.store.node id).Plain := by
  induction run generalizing id with
  | start => exact h id
  | edit _ edit ih =>
    cases edit with
    | noted alike =>
      rw [alike.store]
      exact ih id
    | created site => exact plain_create ih site.inside _ _ none id
    | declared site => exact plain_declare ih site.inside _ _ id
    | bound =>
      rw [node_register]
      exact ih id
  | removed before removable _ _ ih =>
    rw [(removable.cut (before.sound sound).layout).node]
    split
    · exact ih _
    · split
      · exact (ih _).mapChildren _
      · exact ih id

/-! ## What a search looks at -/

def Ty.isReference : Ty → Bool
  | reference .. => true
  | _ => false

/-- The references in a type, in the order written. -/
def Ty.references (t : Ty) : List Ty := t.nested.filter isReference

def Ty.symbol? : Ty → Option SymbolId
  | reference _ (.symbol _ symbol) _ _ | reference _ (.loose symbol) _ _ => some symbol
  | _ => none

/-- The types that a search looks at, part by part. -/
def Part.types : Part → List Ty
  | .node _ => []
  | .type t => [t]

theorem Ty.references_eq (t : Ty) :
    t.references = (if t.isReference then [t] else []) ++ t.children.flatMap references := by
  unfold references
  rw [nested_eq, List.filter_cons, List.filter_flatMap]
  split
  · rfl
  · rfl

theorem Ty.mem_references {t u : Ty} (mem : u ∈ t.references) : u ∈ t.nested ∧ u.isReference = true :=
  List.mem_filter.1 mem

theorem Ty.nested_subset {t u : Ty} (mem : u ∈ t.nested) : u.nested ⊆ t.nested := by
  induction t using Ty.children_induction with
  | step t ih =>
    rw [nested_eq t] at mem
    rcases List.mem_cons.1 mem with rfl | deeper
    · exact fun _ here => here
    · obtain ⟨c, child, inside⟩ := List.mem_flatMap.1 deeper
      intro v here
      rw [nested_eq t]
      exact List.mem_cons_of_mem _ (List.mem_flatMap.2 ⟨c, child, ih c child inside here⟩)

theorem Ty.inlines_subset {t u : Ty} (mem : u ∈ t.nested) : u.inlines ⊆ t.inlines := by
  intro id here
  obtain ⟨v, inside, eq⟩ := List.mem_filterMap.1 here
  exact List.mem_filterMap.2 ⟨v, nested_subset mem inside, eq⟩

namespace Store

def writtenReferences (s : Store) (id : NodeId) : List Ty := (writtenTypes (s.node id).body).flatMap Ty.references

/-- The references that a search from a node looks at, in order. -/
def inspected (s : Store) (root : NodeId) : List Ty :=
  (s.reached root).flatMap fun id => ((s.node id).parts.flatMap Part.types).flatMap Ty.references

/-- The references that are written with a node, in the order of the nodes they are written with. -/
def serialized (s : Store) (root : NodeId) : List Ty :=
  (s.trail (s.nodes.size + 1) root).flatMap s.writtenReferences

/-- The symbol that a reference names, if no node documents it. -/
def missingReference (s : Store) : Ty → Option SymbolId
  | .reference _ link _ _ => s.missingSymbol link
  | _ => none

theorem filterMap_links (s : Store) (t : Ty) :
    t.links.filterMap s.missingSymbol = t.references.filterMap s.missingReference := by
  unfold Ty.links Ty.references
  rw [List.filterMap_filterMap, List.filterMap_filter]
  refine List.filterMap_congr fun u _ => ?_
  cases u <;> rfl

/-- A search finds the symbols of the references it looks at, in that order. -/
theorem missing_eq (s : Store) (root : NodeId) :
    s.missing root = firsts ((s.inspected root).filterMap s.missingReference) := by
  have links : ∀ id, (s.node id).links = ((s.node id).parts.flatMap Part.types).flatMap Ty.links := fun id => by
    rw [Node.links, List.flatMap_assoc]
    refine List.flatMap_congr fun p _ => ?_
    cases p with
    | node _ => rfl
    | type t => exact (List.flatMap_singleton ..).symm
  rw [missing, inspected, List.filterMap_flatMap, List.filterMap_flatMap]
  refine congrArg firsts (List.flatMap_congr fun id _ => ?_)
  rw [links, List.filterMap_flatMap, List.filterMap_flatMap]
  exact List.flatMap_congr fun t _ => s.filterMap_links t

end Store

/-! ## Two orders -/

theorem Node.flatMap_types_node (ids : List NodeId) : (ids.map Part.node).flatMap Part.types = [] := by
  rw [List.flatMap_map, List.flatMap_eq_nil_iff]
  exact fun _ _ => rfl

theorem Node.flatMap_types_type (ts : List Ty) : (ts.map Part.type).flatMap Part.types = ts := by
  rw [List.flatMap_map]
  exact List.flatMap_singleton' ts

theorem Node.Plain.types_eq {n : Node} (plain : n.Plain) : n.parts.flatMap Part.types = Store.writtenTypes n.body := by
  obtain ⟨name, kind, parent, body⟩ := n
  cases body with
  | bare => rfl
  | project ids => exact flatMap_types_node ids
  | declaration b =>
    obtain ⟨overwrites, inherited, implemented⟩ := plain
    simp only [parts, List.flatMap_append, flatMap_types_node, flatMap_types_type, overwrites, inherited, implemented,
      Option.toList_none, List.nil_append, List.append_nil, List.append_assoc, Store.writtenTypes]
  | signature b =>
    obtain ⟨overwrites, inherited, implemented⟩ := plain
    simp only [parts, List.flatMap_append, flatMap_types_node, flatMap_types_type, overwrites, inherited, implemented,
      Option.toList_none, List.nil_append, List.append_nil, Store.writtenTypes]
  | parameter b => exact flatMap_types_type _
  | typeParameter b => exact flatMap_types_type _

namespace Store

/-- A search goes on to what is written inside a node, in another order. -/
theorem written_perm (strays : s.strays = .empty) (plain : (s.node id).Plain) :
    (s.written id).Perm (s.node id).successors := by
  have shown : s.shownChildren id = (s.node id).body.children := by
    unfold shownChildren
    rw [strays, isContainer, children]
    cases (s.node id).body <;> rfl
  rw [written, shown]
  revert plain
  obtain ⟨name, kind, parent, body⟩ := s.node id
  intro plain
  refine List.perm_iff_count.2 fun c => ?_
  cases body with
  | declaration b =>
    obtain ⟨overwrites, inherited, implemented⟩ := plain
    simp only [overwrites, inherited, implemented, writtenNodes, writtenTypes, Body.children, Node.successors_eq,
      Node.parts, List.flatMap_append, Node.flatMap_enters_node, Node.flatMap_enters_type, List.count_append,
      Option.toList_none, List.flatMap_nil, List.count_nil]
    omega
  | signature b =>
    obtain ⟨overwrites, inherited, implemented⟩ := plain
    simp only [overwrites, inherited, implemented, writtenNodes, writtenTypes, Body.children, Node.successors_eq,
      Node.parts, List.flatMap_append, Node.flatMap_enters_node, Node.flatMap_enters_type, List.count_append,
      Option.toList_none, List.flatMap_nil, List.count_nil]
    omega
  | _ =>
    simp only [writtenNodes, writtenTypes, Body.children, Node.successors_eq, Node.parts, List.flatMap_append,
      List.flatMap_nil, Node.flatMap_enters_node, Node.flatMap_enters_type, List.count_append, List.count_nil,
      Nat.zero_add, Nat.add_zero]

/-- Level by level or in depth, the same nodes are visited, each as often. -/
theorem levels_perm (strays : s.strays = .empty) (plain : ∀ id, (s.node id).Plain) (depth : Nat) (level : List NodeId) :
    (s.levels depth level).Perm (level.flatMap (s.trail depth)) := by
  induction depth generalizing level with
  | zero => simp [levels, trail]
  | succ depth ih =>
    have below : (s.levels depth (level.flatMap fun id => (s.node id).successors)).Perm
        (level.flatMap fun id => (s.written id).flatMap (s.trail depth)) := by
      refine (ih _).trans ?_
      rw [List.flatMap_assoc]
      exact List.Perm.flatMap_left _ fun id _ => (written_perm strays (plain id)).symm.flatMap_right _
    have split := List.flatMap_append_perm level (fun id => [id]) fun id => (s.written id).flatMap (s.trail depth)
    rw [List.flatMap_singleton'] at split
    refine List.Perm.trans ?_ split
    cases level with
    | nil => exact .refl _
    | cons id ids => exact below.append_left _

/-- What a search looks at is what is written, in another order. -/
theorem inspected_perm (strays : s.strays = .empty) (plain : ∀ id, (s.node id).Plain) (root : NodeId) :
    (s.inspected root).Perm (s.serialized root) := by
  unfold inspected serialized reached
  have visited := levels_perm strays plain (s.nodes.size + 1) [root]
  rw [List.flatMap_singleton] at visited
  refine (visited.flatMap_right _).trans (.of_eq ?_)
  refine List.flatMap_congr fun id _ => ?_
  rw [(plain id).types_eq, writtenReferences]

end Store

/-! ## What is written -/

namespace Value

/-- The reference itself, if the fields are those of one. -/
def referenceOf (fields : List (String × Value)) : List Value :=
  match lookup "type" fields with
  | some (.str "reference") => [.object fields]
  | _ => []

/-- The references in a form, those inside of them included. -/
def references (v : Value) : List Value := readForm referenceOf v

end Value

namespace Ty

variable (target : Link → Option NodeId) (declared : NodeId → Value)

theorem referenceOf_toValue {t : Ty} (there : t.isAbsent = false) :
    Value.referenceOf (t.toValue target declared).fields = if t.isReference then [t.toValue target declared] else [] := by
  unfold Value.referenceOf
  rw [type_toValue target declared there]
  cases t <;> rfl

/-- The references in the form of a type are the forms of the references in the type, and those in the forms of its
inline declarations. -/
theorem references_toValue (t : Ty) : (t.toValue target declared).references.Perm
    (t.references.map (toValue target declared) ++ t.inlines.flatMap fun id => (declared id).references) := by
  induction t using children_induction with
  | step t ih =>
    cases there : t.isAbsent with
    | true =>
      cases t with
      | absent =>
        rw [toValue]
        exact .refl _
      | _ => cases there
    | false =>
      have inner : (t.children.flatMap fun c => (c.toValue target declared).references).Perm
          ((t.children.flatMap references).map (toValue target declared) ++
            (t.children.flatMap inlines).flatMap fun id => (declared id).references) := by
        rw [List.map_flatMap, List.flatMap_assoc]
        exact (List.Perm.flatMap_left _ ih).trans (List.flatMap_append_perm ..).symm
      have own : (if t.isReference then [t.toValue target declared] else []) =
          (if t.isReference then [t] else []).map (toValue target declared) := by
        split <;> rfl
      have inlines : t.inlines = Node.ofType (some t) ++ t.children.flatMap inlines := by
        rw [inlines_eq]
        cases t <;> rfl
      rw [Value.references, readForm_toValue target declared there, referenceOf_toValue target declared there, own,
        references_eq, inlines, List.map_append, List.flatMap_append, List.append_assoc, List.append_assoc]
      exact ((inner.append_left _).trans (List.perm_append_comm_assoc ..)).append_left _

end Ty

namespace Store

variable (s : Store)

theorem referenceOf_node (id : NodeId) (form : NodeId → Value) (shown : List Value) :
    Value.referenceOf (s.headFields id ++ bodyFields (Ty.toValue s.resolve form) form (s.node id).body
      ++ listField "children" shown) = [] := by
  have other := s.type_node id form shown
  unfold Value.referenceOf
  split
  · rename_i same
    exact absurd same other
  · rfl

/-- The references in the form of a node are the forms of those in its types, and those in the forms of what is written
inside. -/
theorem references_nodeValueDepth_succ (depth : Nat) (id : NodeId) : (s.nodeValueDepth (depth + 1) id).references.Perm
    ((s.writtenReferences id).map (Ty.toValue s.resolve (s.nodeValueDepth depth)) ++
      (s.written id).flatMap fun c => (s.nodeValueDepth depth c).references) := by
  rw [nodeValueDepth, Value.references, readForm, referenceOf_node, List.nil_append]
  have types : ((writtenTypes (s.node id).body).flatMap fun t =>
      readForm Value.referenceOf (t.toValue s.resolve (s.nodeValueDepth depth))).Perm
      ((s.writtenReferences id).map (Ty.toValue s.resolve (s.nodeValueDepth depth)) ++
        ((writtenTypes (s.node id).body).flatMap Ty.inlines).flatMap fun c => (s.nodeValueDepth depth c).references) := by
    rw [writtenReferences, List.map_flatMap, List.flatMap_assoc]
    exact (List.Perm.flatMap_left _ fun t _ => Ty.references_toValue ..).trans (List.flatMap_append_perm ..).symm
  refine (readForm_node s (s.nodeValueDepth depth) id).trans ?_
  rw [written, List.flatMap_append, List.flatMap_append, List.append_assoc, List.append_assoc]
  refine (List.Perm.append_left _ (types.append_right _)).trans ?_
  rw [List.append_assoc]
  exact List.perm_append_comm_assoc ..

variable {s}

/-- The references in the form of a node are the forms of those that are written with it, where all that is written
below fits in. -/
theorem references_nodeValueDepth {depth : Nat} (deep : ∀ n b, StepsTo (fun x y => y ∈ s.written x) n a b → n < depth)
    (enough : depth ≤ s.nodes.size + 1) : (s.nodeValueDepth depth a).references.Perm
      (((s.trail depth a).flatMap s.writtenReferences).map s.typeValue) := by
  induction depth generalizing a with
  | zero => exact absurd (deep 0 a (.refl a)) (Nat.not_lt_zero 0)
  | succ depth ih =>
    have deeper : ∀ {c}, c ∈ s.written a → ∀ n b, StepsTo (fun x y => y ∈ s.written x) n c b → n < depth :=
      fun held n b path => Nat.lt_of_succ_lt_succ (deep (n + 1) b (.head held path))
    refine (s.references_nodeValueDepth_succ depth a).trans ?_
    rw [trail, List.flatMap_cons, List.map_append, List.flatMap_assoc, List.map_flatMap]
    refine List.Perm.append (.of_eq (List.map_congr_left fun u mem => ?_)) (List.Perm.flatMap_left _ fun c held =>
      ih (deeper held) (Nat.le_of_succ_le enough))
    obtain ⟨t, held, inside⟩ := List.mem_flatMap.1 mem
    refine (Ty.toValue_congr _ _ u fun c inline => ?_).symm
    obtain ⟨more, eq⟩ := Nat.exists_eq_add_of_le (Nat.le_of_succ_le enough)
    rw [nodeValue, eq]
    refine nodeValueDepth_eq (deeper (List.mem_append_left _ (List.mem_append_right _ ?_))) more
    exact List.mem_flatMap.2 ⟨t, held, Ty.inlines_subset (Ty.mem_references inside).1 inline⟩

theorem missingReference_eq_some_iff {t : Ty} {symbol : SymbolId} : s.missingReference t = some symbol ↔
    t.symbol? = some symbol ∧ Value.lookup "target" (s.typeValue t).fields = some .null := by
  cases t with
  | reference name link args package =>
    have target : Value.lookup "target" (s.typeValue (.reference name link args package)).fields =
        some (((s.resolve link).map fun id : NodeId => Value.int id).getD .null) := by
      rw [typeValue, Ty.toValue]
      rfl
    rw [target]
    cases link with
    | symbol project other =>
      simp only [missingReference, missingSymbol, Ty.symbol?]
      cases s.resolve (.symbol project other) <;> simp
    | loose other => simp [missingReference, missingSymbol, resolve, Ty.symbol?]
    | _ => simp [missingReference, missingSymbol, Ty.symbol?]
  | _ => simp [missingReference, Ty.symbol?]

end Store

/-! ## Search and output -/

/-- Search and output of a node go through the same references. -/
structure Agrees (s : Store) (n : NodeId) : Prop where
  search : s.search n = .ok (s.missing n)
  canWrite : s.canWrite n = true
  searched : s.missing n = firsts ((s.inspected n).filterMap s.missingReference)
  inspected : (s.inspected n).Perm (s.serialized n)
  written : (s.nodeValue n).references.Perm ((s.serialized n).map s.typeValue)
  missing : ∀ symbol, symbol ∈ s.missing n ↔ ∃ t ∈ s.serialized n,
    t.symbol? = some symbol ∧ Value.lookup "target" (s.typeValue t).fields = some .null

/-- A search looks at exactly the references that are written, at every node of the project, whatever document was
loaded, after any number of passes. What it finds are the symbols that some reference is written for with nothing to
point at. -/
theorem agrees_of_reached {document : Value} (reached : w.Reached document) (way : w.store.Reaches w.project n) :
    Agrees w.store n := by
  obtain ⟨g, stands⟩ := reached.stands
  obtain ⟨u, _, origin, made, run⟩ := stands.origin
  have layout := stands.sound.layout
  have plain := run.plain origin.sound origin.plain
  rw [stands.sound.project] at way
  have inspected := Store.inspected_perm layout.strays plain n
  refine ⟨layout.search_eq n, layout.canWriteDepth _ n, w.store.missing_eq n, inspected,
    Store.references_nodeValueDepth (fun _ _ => stands.lt_of_stepsTo way) (Nat.le_refl _), fun symbol => ?_⟩
  rw [Store.missing_eq, mem_firsts, List.mem_filterMap]
  simp only [Store.missingReference_eq_some_iff, inspected.mem_iff]

/-- The project and its module after a document was loaded, and after a pass over it. -/
theorem agrees_of_reached_leftover : Agrees besideLeftover.store besideLeftover.project ∧
    Agrees besideLeftover.resolve.2.store besideLeftover.resolve.2.project :=
  ⟨agrees_of_reached (.opened opened_leftover) (.refl _), agrees_of_reached (.resolved (.opened opened_leftover)) (.refl _)⟩

end DocTree
