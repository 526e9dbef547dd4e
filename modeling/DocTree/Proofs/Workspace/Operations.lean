import DocTree.Proofs.Convert.Listed
import DocTree.Proofs.Workspace.Remove

/-!
# Operations on a project

* `Coherent w` : the tree, the index and the bindings agree on which nodes there are;
* `Operation`, `perform`, `Allowed` : creating, converting, registering, activating and removing, in the
  scope of structural nodes;
* `Session w` : `w` comes from a fresh project by symbols being described and operations being performed;
* `bears_convertIn`, `kept_convert` : what notes and declarations keep, conversions keep;
* `Invariant w` : what every operation keeps; `Invariant.grown` : something sprouts below a scope;
  `Invariant.convert`, `Invariant.remove`, `Invariant.perform` : an operation is performed;
* `Invariant.allowed_iff` : the index tells which operations are allowed; `Session.run` : several of them;
* `coherent_of_session` : the tree, the index and the bindings always agree.
-/

namespace DocTree.Workspace

/-! ## What is meant to agree -/

/-- The project, and the nodes listed below it. -/
def Structural (w : Workspace) (id : NodeId) : Prop := w.store.Structural w.project id

/-- The tree, the index and the bindings agree on which nodes there are. -/
structure Coherent (w : Workspace) : Prop where
  /-- The index lists the structural nodes, and no others. -/
  listed : ∀ id, w.index.listed.contains id = true ↔ w.Structural id
  /-- A structural node hangs at the one structural node that lists it. -/
  parent : ∀ id, w.Structural id → id ≠ w.project →
    ∃ a, w.Structural a ∧ w.store.Lists a id ∧ (w.store.node id).parent = some a ∧
      ∀ b, w.Structural b → w.store.Lists b id → b = a
  /-- A symbol is bound to a listed node, and is one of its symbols. -/
  bound : ∀ symbol id, w.index.bound.find? symbol = some id →
    w.index.listed.contains id = true ∧ symbol ∈ w.index.symbolsOf id
  /-- The scopes and the targets of the bindings are listed. -/
  bindings : ∀ scope pairs, w.bindings.find? scope = some pairs →
    w.index.listed.contains scope = true ∧ ∀ pair ∈ pairs, w.index.listed.contains pair.2 = true

/-! ## Sessions -/

/-- What can be done with a project. -/
inductive Operation where
  | create (scope : NodeId) (kind : Kind) (name : Value) (symbol : Option SymbolId)
  | convert (scope : NodeId) (symbol : SymbolId)
  | register (scope id : NodeId) (symbol : Option SymbolId)
  | activate (program : Option Value)
  | remove (id : NodeId)

/-- The workspace after an operation, whether it failed or not. -/
def perform (w : Workspace) : Operation → Workspace
  | .create scope kind name symbol =>
    match w.create? scope kind name symbol with
    | .ok (_, w') => w'
    | .error _ => w
  | .convert scope symbol => (w.convert scope symbol).2
  | .register scope id symbol => w.register scope id symbol
  | .activate program => w.activate program
  | .remove id => w.remove id

/-- Scopes and registered nodes are structural, and so is a removed declaration, which is not the project. -/
def Allowed (w : Workspace) : Operation → Prop
  | .create scope _ _ _ => w.Structural scope
  | .convert scope _ => w.Structural scope
  | .register scope id _ => w.Structural scope ∧ w.Structural id
  | .activate _ => True
  | .remove id => w.Structural id ∧ id ≠ w.project ∧ ∃ b, (w.store.node id).body = .declaration b

/-- The inline types of symbols wrap nothing structural. -/
def WrapsOwn (w : Workspace) : Prop :=
  ∀ ⦃symbol d⦄, (w.store.symbol symbol).description = some d →
    ∀ u ∈ d.types, ∀ i ∈ u.inlines, w.store.Foreign w.project i

/-- Symbols were described, and nodes were made for their inline types. Old nodes, the index and the
bindings are the same; anything else may have changed. -/
structure Parsed (w w' : Workspace) : Prop where
  project : w'.project = w.project
  index : w'.index = w.index
  bindings : w'.bindings = w.bindings
  nodes : w.store.Keeps w'.store
  own : w'.WrapsOwn

/-- Workspaces that come from a fresh project. -/
inductive Session : Workspace → Prop
  | started (w : Workspace) (name : Value) : (w.startProject name).WrapsOwn → Session (w.startProject name)
  | parsed {w w' : Workspace} : Session w → Parsed w w' → Session w'
  | performed {w : Workspace} (op : Operation) : Session w → w.Allowed op → Session (w.perform op)

/-! ## What conversions keep -/

section Bears

variable {I : Workspace → Prop} {P : Workspace → NodeId → Prop}

/-- A property of the workspace still holds, nodes are still in place, and what can hold children still can. -/
structure Bears (I : Workspace → Prop) (P : Workspace → NodeId → Prop) (w w' : Workspace) : Prop where
  still : I w'
  place : ∀ {id}, P w id → P w' id
  container : ∀ {id}, w.store.isContainer id = true → w'.store.isContainer id = true

theorem Bears.refl {w : Workspace} (h : I w) : Bears I P w w := ⟨h, fun here => here, fun holds => holds⟩

theorem Bears.trans {w w₁ w' : Workspace} (h : Bears I P w w₁) (h' : Bears I P w₁ w') : Bears I P w w' :=
  ⟨h'.still, fun here => h'.place (h.place here), fun holds => h'.container (h.container holds)⟩

variable (quiet : ∀ {w w' : Workspace}, I w → Quiet w w' → I w' ∧ ∀ {id}, P w id → P w' id)
  (declare : ∀ {w : Workspace} {scope : NodeId} {symbol : SymbolId} {d : Description}, I w → P w scope →
    w.store.isContainer scope = true → (w.store.symbol symbol).description = some d →
      I (w.declare scope symbol d).2 ∧ (∀ {id}, P w id → P (w.declare scope symbol d).2 id) ∧
        P (w.declare scope symbol d).2 w.store.nodes.size)
include quiet declare

/-- What notes and declarations keep, a conversion with all its members keeps. -/
theorem bears_convertIn {w : Workspace} {scope : NodeId} {symbol : SymbolId} (depth : Nat) (h : I w)
    (here : P w scope) (container : w.wouldCreate symbol = true → w.store.isContainer scope = true) :
    Bears I P w (convertIn depth w scope symbol).2 := by
  have noted : ∀ {w w' : Workspace}, I w → Quiet w w' → Bears I P w w' := fun h q =>
    ⟨(quiet h q).1, (quiet h q).2, fun holds => q.store ▸ holds⟩
  induction depth generalizing w scope symbol with
  | zero => exact .refl h
  | succ depth ih =>
    have all : ∀ {id : NodeId} (members : List SymbolId) {w : Workspace}, I w → P w id →
        w.store.isContainer id = true →
        Bears I P w (members.foldl (fun w member => (Workspace.convertIn depth w id member).2) w) := by
      intro id members
      induction members with
      | nil => exact fun h _ _ => .refl h
      | cons member members ihm =>
        intro w h here holds
        have first : Bears I P w (Workspace.convertIn depth w id member).2 := ih h here fun _ => holds
        exact first.trans (ihm first.still (first.place here) (first.container holds))
    unfold Workspace.convertIn
    cases declaration : w.declarationOf? symbol with
    | some id => exact .refl h
    | none =>
      cases described : (w.store.symbol symbol).description with
      | none =>
        simp only [described]
        exact noted h (quiet_report ..)
      | some d =>
        have holds : w.store.isContainer scope = true := by
          refine container ?_
          rw [wouldCreate, declaration, described]
          rfl
        have grown := (declared_declare w (Store.lt_of_isContainer holds) symbol d).sprouts
        obtain ⟨declared, place, first⟩ := declare h here holds described
        have announced := noted declared (quiet_announce (w.declare scope symbol d).2 scope w.store.nodes.size)
        have owner : (w.declare scope symbol d).2.store.isContainer w.store.nodes.size = true := by
          obtain ⟨b, eq⟩ := grown.declaration
          rw [Store.isContainer, eq]
          rfl
        have members := all d.members announced.still (announced.place first) (announced.container owner)
        simp only [described, declare_fst]
        exact (Bears.trans ⟨declared, place, grown.isContainer⟩ announced).trans members

/-- So does a conversion that fails. -/
theorem kept_convert {w : Workspace} {scope : NodeId} (h : I w) (here : P w scope) (symbol : SymbolId) :
    I (w.convert scope symbol).2 := by
  unfold Workspace.convert
  split
  · exact h
  · split
    · exact h
    · rename_i accepted
      have container : w.wouldCreate symbol = true → w.store.isContainer scope = true := by
        intro creates
        rw [creates] at accepted
        simpa using accepted
      split
      · rename_i unheard
        have creates : w.wouldCreate symbol = true := (Bool.and_eq_true_iff.1 unheard).1
        show I (w.declareUnheard scope symbol)
        unfold declareUnheard
        split
        · exact h
        · rename_i described
          exact (declare h here (container creates) described).1
      · exact (bears_convertIn quiet declare _ h here container).still

end Bears

/-! ## What every operation keeps -/

/-- The tree is rooted at the project, and the index and the bindings know structural nodes only. -/
structure Invariant (w : Workspace) : Prop where
  rooted : w.store.Rooted w.project
  own : w.WrapsOwn
  listed : ∀ {id}, w.Listed id ↔ w.Structural id
  consistent : w.index.Consistent
  bindings : Within w.Structural w.bindings

variable {w w' : Workspace} {scope : NodeId} {symbol : SymbolId} {d : Description}

theorem Invariant.coherent (h : Invariant w) : Coherent w where
  listed := fun _ => h.listed
  parent := fun id structural ne => by
    obtain ⟨a, above, lists⟩ := Store.Structural.lister structural ne
    exact ⟨a, above, lists, h.rooted.parent above lists,
      fun b above' lists' => h.rooted.unique above' lists' above lists⟩
  bound := fun _ _ eq => ⟨h.consistent.listed eq, h.consistent.symbols eq⟩
  bindings := fun _ _ eq => by
    obtain ⟨here, targets⟩ := h.bindings eq
    exact ⟨h.listed.2 here, fun pair mem => h.listed.2 (targets pair mem)⟩

theorem WrapsOwn.mono (own : w.WrapsOwn) (symbols : w'.store.symbols = w.store.symbols)
    (foreign : ∀ {i}, w.store.Foreign w.project i → w'.store.Foreign w'.project i) : w'.WrapsOwn := by
  intro symbol d described u mem i inside
  rw [Store.symbol, symbols] at described
  exact foreign (own described u mem i inside)

theorem WrapsOwn.spared (own : w.WrapsOwn) (symbols : w'.store.symbols = w.store.symbols)
    (project : w'.project = w.project) (spares : w.store.Spares w.project w'.store) : w'.WrapsOwn :=
  own.mono symbols fun foreign => project ▸ foreign.spared spares

/-- Changes beside the tree. -/
theorem Invariant.beside (h : Invariant w) (project : w'.project = w.project) (nodes : w.store.Keeps w'.store)
    (own : w'.WrapsOwn) (listed : ∀ {id}, w'.Listed id ↔ w.Listed id) (consistent : w'.index.Consistent)
    (bindings : Within w.Structural w'.bindings) : Invariant w' := by
  have structural : ∀ {id}, w'.Structural id ↔ w.Structural id := by
    intro id
    unfold Structural
    rw [project]
    exact Store.structural_keeps h.rooted.toOrdered nodes
  exact ⟨project ▸ h.rooted.keeps nodes, own, fun {id} => by rw [listed, structural, h.listed], consistent,
    bindings.mono fun _ => structural.2⟩

theorem Invariant.quiet (h : Invariant w) (q : Quiet w w') : Invariant w' := by
  have nodes : w.store.Keeps w'.store := q.store ▸ .refl _
  exact h.beside q.project nodes
    (h.own.spared q.kept.symbols q.project (Store.spares_keeps h.rooted.toOrdered nodes)) (listed_congr q.index)
    (q.index ▸ h.consistent) (q.bindings ▸ h.bindings)

/-! ### Starting and parsing -/

theorem invariant_startProject (w : Workspace) (name : Value) (own : (w.startProject name).WrapsOwn) :
    Invariant (w.startProject name) := by
  have node : (w.startProject name).store.node (w.startProject name).project = ⟨name, .project, none, .project []⟩ :=
    (Store.node_addNode ..).trans (if_pos rfl)
  have inside : (w.startProject name).project < (w.startProject name).store.nodes.size := by
    show w.store.nodes.size < (w.store.addNode _).2.nodes.size
    rw [Store.size_addNode]
    exact Nat.lt_succ_self _
  obtain ⟨rooted, only⟩ := Store.rooted_bare inside node
  have index : (w.startProject name).index = .ofProject (w.startProject name).project := by
    show (((w.store.indexes.insert w.store.nodes.size _).find? w.store.nodes.size).getD default) = _
    rw [OrdMap.find?_insert, if_pos rfl]
    rfl
  refine ⟨rooted, own, fun {id} => ?_, ?_, nofun⟩
  · rw [Listed, index, Structural, only]
    exact Index.contains_insert.trans (or_iff_left fun listed => nomatch listed)
  · rw [index]
    exact Index.consistent_of_bound_empty fun _ => rfl

theorem Invariant.parsed (h : Invariant w) (parsed : Parsed w w') : Invariant w' :=
  h.beside parsed.project parsed.nodes parsed.own (listed_congr parsed.index)
    (parsed.index ▸ h.consistent) (parsed.bindings ▸ h.bindings)

/-! ### Creating and converting -/

theorem Quiet.structural (q : Quiet w w') {id : NodeId} (way : w.Structural id) : w'.Structural id := by
  rw [Structural, q.store, q.project]
  exact way

/-- A declaration with all that is in it sprouts below a structural scope, is listed, and is bound there. -/
theorem Invariant.grown (h : Invariant w) {types : List Ty} (structural : w.Structural scope)
    (container : w.store.isContainer scope = true) (grown : w.store.Sprouts scope types w'.store)
    (foreign : ∀ u ∈ types, ∀ i ∈ u.inlines, w.store.Foreign w.project i) (kept : Kept w w') (fills : Fills w w')
    (consistent : w'.index.Consistent)
    (bound : ∀ {P : NodeId → Prop}, Within P w.bindings → P scope → P w.store.nodes.size → Within P w'.bindings) :
    Invariant w' ∧ (∀ {id}, w.Structural id → w'.Structural id) ∧ w'.Structural w.store.nodes.size := by
  have iff : ∀ {id}, w'.Structural id ↔
      w.Structural id ∨ (w.store.nodes.size ≤ id ∧ id < w'.store.nodes.size) := by
    intro id
    unfold Structural
    rw [kept.project]
    exact Store.structural_sprouts grown structural container foreign
  have first : w'.Structural w.store.nodes.size := iff.2 (Or.inr ⟨Nat.le_refl _, grown.size⟩)
  refine ⟨⟨?_, ?_, fun {id} => ?_, consistent, ?_⟩, fun way => iff.2 (Or.inl way), first⟩
  · rw [kept.project]
    exact h.rooted.sprouts grown container foreign
  · exact h.own.spared kept.symbols kept.project (Store.spares_sprouts grown structural container)
  · rw [fills.listed, iff, h.listed]
  · exact bound (h.bindings.mono fun _ way => iff.2 (Or.inl way)) (iff.2 (Or.inl structural)) first

theorem Invariant.create (h : Invariant w) (structural : w.Structural scope)
    (container : w.store.isContainer scope = true) (kind : Kind) (name : Value) (symbol : Option SymbolId) :
    Invariant (w.create scope kind name symbol).2 :=
  (h.grown structural container (sprouts_create (h.rooted.inside structural) kind name symbol)
    (List.forall_mem_nil _) (kept_create ..) (fills_create ..) (consistent_create h.consistent)
    fun within here target => within_create within here target kind name symbol).1

theorem Invariant.declare (h : Invariant w) (structural : w.Structural scope)
    (container : w.store.isContainer scope = true) (described : (w.store.symbol symbol).description = some d) :
    Invariant (w.declare scope symbol d).2 ∧ (∀ {id}, w.Structural id → (w.declare scope symbol d).2.Structural id) ∧
      (w.declare scope symbol d).2.Structural w.store.nodes.size := by
  have declared := declared_declare w (h.rooted.inside structural) symbol d
  exact h.grown structural container declared.sprouts (h.own described) declared.kept (fills_declare ..)
    (declared.consistent h.consistent) fun within here target => within_declare within here target symbol d

/-- Whether converting a symbol with all its members succeeds or fails, the invariant is kept. -/
theorem Invariant.convert (h : Invariant w) (structural : w.Structural scope) (symbol : SymbolId) :
    Invariant (w.convert scope symbol).2 :=
  kept_convert (I := Invariant) (P := Structural) (fun h q => ⟨h.quiet q, q.structural⟩)
    (fun h structural container described => h.declare structural container described) h structural symbol

/-! ### Registering and removing -/

theorem Invariant.register {id : NodeId} (h : Invariant w) (structural : w.Structural scope)
    (target : w.Structural id) (symbol : Option SymbolId) : Invariant (w.register scope id symbol) := by
  have nodes : w.store.Keeps (w.register scope id symbol).store :=
    ⟨Nat.le_of_eq (congrArg Array.size (nodes_register ..)).symm, fun _ => node_register ..⟩
  have kept := kept_register w scope id symbol
  refine h.beside kept.project nodes
    (h.own.spared kept.symbols kept.project (Store.spares_keeps h.rooted.toOrdered nodes)) (fun {id'} => ?_)
    (consistent_register h.consistent ..) (within_register h.bindings structural target symbol)
  rw [listed_register]
  exact or_iff_right_of_imp fun here => here ▸ h.listed.2 target

theorem find?_pruneBindings (removed : List NodeId) (bindings : Bindings) (scope : NodeId) :
    (pruneBindings removed bindings).find? scope =
      if scope ∈ removed then none
      else (bindings.find? scope).map fun pairs => pairs.filter fun pair => !removed.contains pair.2 := by
  have erased : (removed.foldl OrdMap.erase bindings).find? scope =
      if scope ∈ removed then none else bindings.find? scope := by
    induction removed generalizing bindings with
    | nil => rfl
    | cons id removed ih =>
      rw [List.foldl_cons, ih, OrdMap.find?_erase]
      by_cases here : scope = id
      · rw [if_pos here, ite_self, if_pos (here ▸ List.mem_cons_self)]
      · rw [if_neg here]
        simp only [List.mem_cons, here, false_or]
  unfold pruneBindings
  rw [OrdMap.find?_mapValues, erased]
  split <;> rfl

/-- Removing a declaration takes all that is listed below it out of the tree, the index and the bindings. -/
theorem Invariant.remove {id : NodeId} (h : Invariant w) (structural : w.Structural id) (ne : id ≠ w.project)
    (declaration : ∃ b, (w.store.node id).body = .declaration b) : Invariant (w.remove id) := by
  obtain ⟨parent, above, listed⟩ := Store.Structural.lister structural ne
  have kept := kept_remove w id
  have cut : w.store.Cut parent id (w.remove id).store := by
    refine (loses_remove w id).cut (h.rooted.parent above listed) ?_
    rintro rfl
    exact h.rooted.not_lists_self structural listed
  have iff : ∀ {id'}, (w.remove id).Structural id' ↔ w.Structural id' ∧ id' ∉ w.store.walk id := by
    intro id'
    unfold Structural
    rw [kept.project, Store.structural_cut h.rooted.toOrdered cut above listed declaration]
    exact and_congr_right fun way => not_congr (h.rooted.mem_walk_iff structural way).symm
  refine ⟨?_, ?_, fun {id'} => ?_, ?_, ?_⟩
  · rw [kept.project]
    exact h.rooted.cut cut above listed declaration
  · exact h.own.mono kept.symbols fun foreign => kept.project ▸ foreign.loses (loses_remove w id)
  · rw [Listed, index_remove, Index.contains_foldl_forget, iff, and_comm]
    exact and_congr_left' h.listed
  · rw [index_remove]
    exact h.consistent.foldl_forget _
  · intro scope pairs eq
    have eq : (pruneBindings (w.store.walk id) w.bindings).find? scope = some pairs := eq
    rw [find?_pruneBindings] at eq
    split at eq
    · cases eq
    · rename_i here
      obtain ⟨before, found, rfl⟩ := Option.map_eq_some_iff.1 eq
      obtain ⟨scope', targets⟩ := h.bindings found
      refine ⟨iff.2 ⟨scope', here⟩, fun pair mem => ?_⟩
      obtain ⟨mem, left⟩ := List.mem_filter.1 mem
      exact iff.2 ⟨targets pair mem, by simpa using left⟩

/-! ### Sessions -/

theorem Invariant.perform (h : Invariant w) (op : Operation) (allowed : w.Allowed op) : Invariant (w.perform op) := by
  cases op with
  | create scope kind name symbol =>
    unfold Workspace.perform
    dsimp only
    unfold create?
    by_cases container : w.store.isContainer scope = true
    · rw [if_pos container]
      exact h.create allowed container kind name symbol
    · rw [if_neg container]
      exact h
  | convert scope symbol => exact h.convert allowed symbol
  | register scope id symbol => exact h.register allowed.1 allowed.2 symbol
  | activate program => exact h.beside rfl (.refl _) h.own Iff.rfl h.consistent h.bindings
  | remove id => exact h.remove allowed.1 allowed.2.1 allowed.2.2

theorem Session.invariant (session : Session w) : Invariant w := by
  induction session with
  | started w name own => exact invariant_startProject w name own
  | parsed _ parsed ih => exact ih.parsed parsed
  | performed op _ allowed ih => exact ih.perform op allowed

/-! ### Sessions as computed -/

def permits (w : Workspace) : Operation → Bool
  | .create scope _ _ _ | .convert scope _ => w.index.listed.contains scope
  | .register scope id _ => w.index.listed.contains scope && w.index.listed.contains id
  | .activate _ => true
  | .remove id =>
    w.index.listed.contains id && id != w.project &&
      match (w.store.node id).body with
      | .declaration _ => true
      | _ => false

/-- The index tells which operations are allowed. -/
theorem Invariant.allowed_iff (h : Invariant w) (op : Operation) : w.Allowed op ↔ w.permits op = true := by
  have listed : ∀ {id}, w.Structural id ↔ w.index.listed.contains id = true := h.listed.symm
  cases op with
  | create scope kind name symbol => exact listed
  | convert scope symbol => exact listed
  | register scope id symbol =>
    rw [permits, Bool.and_eq_true, ← listed, ← listed]
    exact Iff.rfl
  | activate program => exact ⟨fun _ => rfl, fun _ => trivial⟩
  | remove id =>
    rw [permits, Bool.and_eq_true, Bool.and_eq_true, ← listed, bne_iff_ne, and_assoc]
    refine and_congr_right fun _ => and_congr_right fun _ => ?_
    cases (w.store.node id).body with
    | declaration b => exact ⟨fun _ => rfl, fun _ => ⟨b, rfl⟩⟩
    | _ => exact ⟨nofun, nofun⟩

def permitsAll : Workspace → List Operation → Bool
  | _, [] => true
  | w, op :: ops => w.permits op && permitsAll (w.perform op) ops

theorem Session.run {ops : List Operation} (session : Session w) (permitted : w.permitsAll ops = true) :
    Session (ops.foldl perform w) := by
  induction ops generalizing w with
  | nil => exact session
  | cons op ops ih =>
    obtain ⟨first, rest⟩ := Bool.and_eq_true_iff.1 permitted
    exact ih (session.performed op ((session.invariant.allowed_iff op).2 first)) rest

/-! ### The tree, the index and the bindings -/

/-- The tree, the index and the bindings agree after any sequence of operations. -/
theorem coherent_of_session (session : Session w) : Coherent w := session.invariant.coherent

/-! ### A session with a class -/

/-- A class with a type parameter, a constructor of one parameter, an inline type and one member. -/
def classDescription : Description :=
  { type := some (.inline 1)
    signatures := [{ parameters := [{ name := .str "size", type := some (.inline 1) }]
                     typeParameters := [{ name := .str "T" }] }]
    typeParameters := [{ name := .str "T" }]
    members := [1] }

/-- A fresh project, and beside it the class with its inline type and its member. -/
def besideClass : Workspace :=
  let w := empty.startProject (.str "app")
  let store := (w.store.addNode ⟨.str "__type", .typeLiteral, none, .declaration {}⟩).2
  let store := (store.addSymbol ⟨.str "Box", .classKind, some (.str "main"), some classDescription⟩).2
  let store := (store.addSymbol ⟨.str "size", .property, some (.str "main"), some {}⟩).2
  { w with store := store }

theorem wrapsOwn_besideClass : besideClass.WrapsOwn := by
  have inline : besideClass.store.Foreign besideClass.project 1 :=
    Store.foreign_of_lists [0] [1] (by decide +kernel) (by decide +kernel) (by decide +kernel) (by decide +kernel)
  intro symbol d described u mem i inside
  have here : i = 1 := by
    match symbol with
    | 0 =>
      cases described
      have all : ∀ u ∈ classDescription.types, ∀ i ∈ u.inlines, i = 1 := by decide +kernel
      exact all u mem i inside
    | 1 =>
      cases described
      cases mem
    | symbol + 2 => cases described
  exact here ▸ inline

theorem session_besideClass : Session besideClass :=
  .parsed (.started empty (.str "app") fun _ _ described => nomatch described)
    ⟨rfl, rfl, rfl, ⟨by decide +kernel, fun lt => Nat.lt_one_iff.1 lt ▸ rfl⟩, wrapsOwn_besideClass⟩

/-- Operations on this project: the class is converted in a module, its property is bound to a parameter
and converted a second time, and the class is removed. One operation fails. -/
def classOperations : List Operation :=
  [.activate (some (.str "main")), .create 0 .module (.str "shapes") none, .convert 2 0,
    .create 7 .property (.str "lost") none, .register 2 7 (some 1), .convert 2 1, .remove 3]

/-- The workspace they lead to. -/
def afterClass : Workspace := classOperations.foldl perform besideClass

/-- What is left are the project, the module, and the property that was converted again. -/
example : afterClass.index.listed.keys = [0, 2, 9] ∧ afterClass.bindings.entries = [(2, [(1, 9)])] := by
  decide +kernel

theorem session_afterClass : Session afterClass := session_besideClass.run (by decide +kernel)

theorem coherent_of_session_afterClass : Session afterClass ∧ Coherent afterClass :=
  ⟨session_afterClass, coherent_of_session session_afterClass⟩

end DocTree.Workspace
