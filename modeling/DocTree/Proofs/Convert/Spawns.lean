import DocTree.Proofs.Convert.Listed
import DocTree.Proofs.Workspace.Sound

/-!
# What a conversion declares

The members of symbols may form any graph: cycles, symbols that are members of themselves or of several others. A
conversion goes through it depth first and binds every symbol before it looks at its members, so that it declares each
symbol once.

* `DeclarationsOnly w` : symbols are bound to declarations only; `Pending w symbol` : the symbol has no node, but a
  description; `Due w roots symbol` : the least set of pending symbols that holds the pending ones of `roots` and the
  pending members of each symbol in it;
* `Spawns w R w'` : `w'` has one more declaration for each symbol of `R`, and no others; `Spawns.trans`;
  `spawns_declare`;
* `Converts w scope symbols w'` : conversion of symbols one after the other, as a relation; `Brings`, `Converts.brings` :
  it declares exactly the due symbols, each below the scope or a due owner;
* `converts_of_declarationsOnly` : what `convertIn` does, since the symbols without a node get fewer with every level it
  goes down.
-/

namespace DocTree

/-- A node hangs below another one as a child. -/
def Store.Under (s : Store) (id parent : NodeId) : Prop :=
  (s.node id).parent = some parent ∧ id ∈ s.children parent

namespace Workspace

variable {w w₁ w₂ w' : Workspace} {scope : NodeId} {symbol : SymbolId} {symbols roots : List SymbolId}
  {d : Description} {R R' : SymbolId → Prop}

/-! ## What is due -/

/-- Symbols are bound to declarations only. -/
def DeclarationsOnly (w : Workspace) : Prop :=
  ∀ symbol id, w.index.bound.find? symbol = some id → ∃ b, (w.store.node id).body = .declaration b

theorem DeclarationsOnly.lt (h : w.DeclarationsOnly) {id : NodeId} (bound : w.index.bound.find? symbol = some id) :
    id < w.store.nodes.size := by
  obtain ⟨b, eq⟩ := h symbol id bound
  apply Store.lt_of_isContainer
  rw [Store.isContainer, eq]
  rfl

theorem nodeOf?_eq_some_iff {id : NodeId} :
    w.nodeOf? symbol = some id ↔ w.index.bound.find? symbol = some id ∧ w.Listed id := by
  rw [nodeOf?, Index.nodeOf?, Option.filter_eq_some_iff]
  rfl

theorem DeclarationsOnly.declarationOf?_eq (h : w.DeclarationsOnly) (symbol : SymbolId) :
    w.declarationOf? symbol = w.nodeOf? symbol := by
  unfold declarationOf?
  cases eq : w.nodeOf? symbol with
  | none => rfl
  | some id =>
    obtain ⟨b, body⟩ := h symbol id (nodeOf?_eq_some_iff.1 eq).1
    rw [Option.filter_some, body]
    rfl

theorem DeclarationsOnly.quiet (h : w.DeclarationsOnly) (q : Quiet w w₁) : w₁.DeclarationsOnly := by
  intro symbol id bound
  rw [q.index] at bound
  rw [q.store]
  exact h symbol id bound

/-- A symbol has no node, but is described: converting it declares it. -/
def Pending (w : Workspace) (symbol : SymbolId) : Prop :=
  w.nodeOf? symbol = none ∧ ∃ d, (w.store.symbol symbol).description = some d

/-- The symbols that converting some symbols declares: those that are pending, and the pending members of each of
them. -/
inductive Due (w : Workspace) (roots : List SymbolId) : SymbolId → Prop
  | root {symbol : SymbolId} : symbol ∈ roots → w.Pending symbol → Due w roots symbol
  | member {owner symbol : SymbolId} :
    Due w roots owner → symbol ∈ w.store.membersOf owner → w.Pending symbol → Due w roots symbol

theorem Due.pending (h : Due w roots symbol) : w.Pending symbol := by
  cases h with
  | root _ pending => exact pending
  | member _ _ pending => exact pending

theorem Due.mono (h : Due w₁ roots symbol) {roots' : List SymbolId} (members : w₁.store.membersOf = w.store.membersOf)
    (pending : ∀ symbol, w₁.Pending symbol → w.Pending symbol)
    (start : ∀ symbol ∈ roots, w₁.Pending symbol → Due w roots' symbol) : Due w roots' symbol := by
  induction h with
  | root mem here => exact start _ mem here
  | member _ mem here ih => exact .member ih (members ▸ mem) (pending _ here)

theorem not_due_nil : ¬Due w [] symbol := by
  intro h
  induction h with
  | root mem _ => cases mem
  | member _ _ _ ih => exact ih

theorem due_cons_of_not_pending (known : ¬w.Pending symbol) {X : SymbolId} :
    Due w (symbol :: symbols) X ↔ Due w symbols X := by
  constructor
  · intro h
    refine h.mono rfl (fun _ here => here) fun Y mem here => ?_
    rcases List.mem_cons.1 mem with rfl | mem
    · exact absurd here known
    · exact .root mem here
  · intro h
    exact h.mono rfl (fun _ here => here) fun Y mem here => .root (List.mem_cons_of_mem _ mem) here

/-! ## New declarations -/

/-- A node is a declaration with the name and the kind of a symbol. -/
structure Represents (w : Workspace) (symbol : SymbolId) (id : NodeId) : Prop where
  name : (w.store.node id).name = (w.store.symbol symbol).name
  kind : (w.store.node id).kind = (w.store.symbol symbol).kind
  declaration : ∃ b, (w.store.node id).body = .declaration b

/-- There is one more declaration for each symbol of a set, and no others. Nodes that there were before have gained
children at most, and nothing is bound but the symbols of the set. -/
structure Spawns (w : Workspace) (R : SymbolId → Prop) (w' : Workspace) : Prop where
  kept : Kept w w'
  size : w.store.nodes.size ≤ w'.store.nodes.size
  node : ∀ {id}, id < w.store.nodes.size → ∃ ids, w'.store.node id = (w.store.node id).giveChildren ids
  listed : ∀ {id}, id < w.store.nodes.size → (w'.Listed id ↔ w.Listed id)
  bound : ∀ {X}, ¬R X → w'.index.bound.find? X = w.index.bound.find? X
  due : ∀ {X}, R X → ∃ id, w.store.nodes.size ≤ id ∧ w'.nodeOf? X = some id ∧ Represents w' X id
  single : ∀ {X Y id}, R X → R Y → w'.nodeOf? X = some id → w'.nodeOf? Y = some id → X = Y
  new : ∀ {id b}, w.store.nodes.size ≤ id → (w'.store.node id).body = .declaration b →
    ∃ X, R X ∧ w'.nodeOf? X = some id

namespace Spawns

theorem of_iff (h : Spawns w R w') (same : ∀ X, R X ↔ R' X) : Spawns w R' w' := by
  obtain rfl : R = R' := funext fun X => propext (same X)
  exact h

theorem membersOf (h : Spawns w R w') : w'.store.membersOf = w.store.membersOf := by
  funext X
  exact Sound.membersOf_congr h.kept.symbols X

/-- Nodes stay where they hang, with the children they have. -/
theorem under (h : Spawns w R w') {id parent : NodeId} (inside : id < w.store.nodes.size)
    (under : w.store.Under id parent) : w'.store.Under id parent := by
  obtain ⟨above, held⟩ := under
  obtain ⟨_, eq⟩ := h.node inside
  have inside' : parent < w.store.nodes.size :=
    Store.lt_of_isContainer (Store.isContainer_of_mem_children held)
  obtain ⟨ids, eq'⟩ := h.node inside'
  refine ⟨by rw [eq]; exact above, ?_⟩
  have container := Store.isContainer_of_mem_children held
  rw [Store.children, eq', Node.giveChildren_body, Body.children_mapChildren container]
  exact List.mem_append_left _ held

theorem declaration_iff (h : Spawns w R w') {id : NodeId} (inside : id < w.store.nodes.size) :
    (∃ b, (w'.store.node id).body = .declaration b) ↔ ∃ b, (w.store.node id).body = .declaration b := by
  obtain ⟨ids, eq⟩ := h.node inside
  rw [eq, Node.giveChildren_body]
  exact Node.mapChildren_eq_declaration

theorem isContainer (h : Spawns w R w') {id : NodeId} (container : w.store.isContainer id = true) :
    w'.store.isContainer id = true := by
  obtain ⟨ids, eq⟩ := h.node (Store.lt_of_isContainer container)
  rw [Store.isContainer, eq, Node.giveChildren_body, Node.isContainer_mapChildren]
  exact container

theorem represents (h : Spawns w R w') {X : SymbolId} {id : NodeId} (stands : Represents w X id) :
    Represents w' X id := by
  have inside : id < w.store.nodes.size := by
    obtain ⟨b, eq⟩ := stands.declaration
    apply Store.lt_of_isContainer
    rw [Store.isContainer, eq]
    rfl
  obtain ⟨ids, eq⟩ := h.node inside
  refine ⟨?_, ?_, (h.declaration_iff inside).2 stands.declaration⟩
  · rw [eq, h.kept.symbol]
    exact stands.name
  · rw [eq, h.kept.symbol]
    exact stands.kind

/-- Symbols stay bound to declarations only. -/
theorem declarationsOnly (h : Spawns w R w') (only : w.DeclarationsOnly) : w'.DeclarationsOnly := by
  intro X id bound
  by_cases here : R X
  · obtain ⟨id', _, eq, stands⟩ := h.due here
    rw [(nodeOf?_eq_some_iff.1 eq).1] at bound
    cases bound
    exact stands.declaration
  · rw [h.bound here] at bound
    exact (h.declaration_iff (only.lt bound)).2 (only X id bound)

theorem nodeOf?_eq (h : Spawns w R w') (only : w.DeclarationsOnly) {X : SymbolId} (other : ¬R X) :
    w'.nodeOf? X = w.nodeOf? X := by
  apply Option.ext
  intro id
  rw [nodeOf?_eq_some_iff, nodeOf?_eq_some_iff, h.bound other]
  exact and_congr_right fun bound => h.listed (only.lt bound)

theorem pending_iff (h : Spawns w R w') (only : w.DeclarationsOnly) {X : SymbolId} :
    w'.Pending X ↔ w.Pending X ∧ ¬R X := by
  unfold Pending
  rw [h.kept.symbol]
  by_cases here : R X
  · obtain ⟨id, _, eq, _⟩ := h.due here
    simp [eq, here]
  · rw [h.nodeOf?_eq only here]
    simp [here]

/-- What only notes things down spawns nothing. -/
theorem of_quiet (q : Quiet w w') : Spawns w (fun _ => False) w' where
  kept := q.kept
  size := q.store ▸ Nat.le_refl _
  node := fun {id} _ => ⟨[], by rw [q.store, Node.giveChildren_nil]⟩
  listed := fun _ => listed_congr q.index
  bound := fun _ => by rw [q.index]
  due := False.elim
  single := False.elim
  new := fun {id b} above body => by
    rw [q.store, Store.node_of_size_le above] at body
    cases body

/-- One phase after the other, each with symbols of its own. -/
theorem trans (h : Spawns w R w₁) (h' : Spawns w₁ R' w₂) (only : w.DeclarationsOnly)
    (pending : ∀ X, R' X → w₁.Pending X) : Spawns w (fun X => R X ∨ R' X) w₂ := by
  have only₁ := h.declarationsOnly only
  have apart {X : SymbolId} (here : R X) : ¬R' X := fun later =>
    ((h.pending_iff only).1 (pending X later)).2 here
  have first {X : SymbolId} (here : R X) : w₂.nodeOf? X = w₁.nodeOf? X := h'.nodeOf?_eq only₁ (apart here)
  have early {X : SymbolId} {id : NodeId} (here : R X) (eq : w₂.nodeOf? X = some id) : id < w₁.store.nodes.size := by
    rw [first here] at eq
    exact only₁.lt (nodeOf?_eq_some_iff.1 eq).1
  have late {X : SymbolId} {id : NodeId} (here : R' X) (eq : w₂.nodeOf? X = some id) : w₁.store.nodes.size ≤ id := by
    obtain ⟨id', above, eq', _⟩ := h'.due here
    rw [eq'] at eq
    cases eq
    exact above
  have size := h.size
  refine ⟨h.kept.trans h'.kept, size.trans h'.size, ?_, ?_, ?_, ?_, ?_, ?_⟩
  · intro id inside
    obtain ⟨ids, eq⟩ := h.node inside
    obtain ⟨ids', eq'⟩ := h'.node (Nat.lt_of_lt_of_le inside size)
    exact ⟨ids ++ ids', by rw [eq', eq, Node.giveChildren_giveChildren]⟩
  · intro id inside
    exact (h'.listed (Nat.lt_of_lt_of_le inside size)).trans (h.listed inside)
  · intro X other
    rw [h'.bound fun here => other (Or.inr here), h.bound fun here => other (Or.inl here)]
  · rintro X (here | here)
    · obtain ⟨id, above, eq, stands⟩ := h.due here
      exact ⟨id, above, (first here).trans eq, h'.represents stands⟩
    · obtain ⟨id, above, eq, stands⟩ := h'.due here
      exact ⟨id, size.trans above, eq, stands⟩
  · rintro X Y id (here | here) (here' | here') eq eq'
    · exact h.single here here' (first here ▸ eq) (first here' ▸ eq')
    · exact absurd (early here eq) (Nat.not_lt_of_le (late here' eq'))
    · exact absurd (early here' eq') (Nat.not_lt_of_le (late here eq))
    · exact h'.single here here' eq eq'
  · intro id b above body
    by_cases inside : id < w₁.store.nodes.size
    · obtain ⟨b', body'⟩ := (h'.declaration_iff inside).1 ⟨b, body⟩
      obtain ⟨X, here, eq⟩ := h.new above body'
      exact ⟨X, Or.inl here, (first here).trans eq⟩
    · obtain ⟨X, here, eq⟩ := h'.new (Nat.le_of_not_lt inside) body
      exact ⟨X, Or.inr here, eq⟩

end Spawns

theorem Spawns.quiet (h : Spawns w R w₁) (q : Quiet w₁ w₂) (only : w.DeclarationsOnly) : Spawns w R w₂ :=
  (h.trans (.of_quiet q) only fun _ => False.elim).of_iff fun _ => iff_of_eq (or_false _)

/-- A symbol has its declaration in a scope, where its members go. -/
structure Heads (w : Workspace) (scope : NodeId) (symbol : SymbolId) (w' : Workspace) : Prop
    extends Spawns w (· = symbol) w' where
  resolves : w'.nodeOf? symbol = some w.store.nodes.size
  inside : w.store.nodes.size < w'.store.nodes.size
  hangs : w'.store.Under w.store.nodes.size scope
  container : w'.store.isContainer w.store.nodes.size = true
  same : ∀ {id}, id < w.store.nodes.size → id ≠ scope → w'.store.node id = w.store.node id
  widened : w'.store.node scope = (w.store.node scope).giveChildren [w.store.nodes.size]

theorem Heads.quiet (h : Heads w scope symbol w₁) (q : Quiet w₁ w₂) (only : w.DeclarationsOnly) :
    Heads w scope symbol w₂ where
  toSpawns := h.toSpawns.quiet q only
  resolves := (q.nodeOf? symbol).trans h.resolves
  inside := q.store ▸ h.inside
  hangs := q.store ▸ h.hangs
  container := q.store ▸ h.container
  same := q.store ▸ h.same
  widened := q.store ▸ h.widened

theorem Heads.not_due (h : Heads w scope symbol w₁) (only : w.DeclarationsOnly) : ¬Due w₁ roots symbol :=
  fun due => ((h.pending_iff only).1 due.pending).2 rfl

/-- Declaring a symbol gives it one declaration, the last child of the scope. -/
theorem heads_declare (container : w.store.isContainer scope = true) (symbol : SymbolId) (d : Description) :
    Heads w scope symbol (w.declare scope symbol d).2 := by
  have declared := declared_declare w (Store.lt_of_isContainer container) symbol d
  have grown := declared.sprouts
  have fills := fills_declare w scope symbol d
  obtain ⟨b, head⟩ := declared.declaration
  have resolves : (w.declare scope symbol d).2.nodeOf? symbol = some w.store.nodes.size := by
    rw [nodeOf?_eq_some_iff, declared.bound, OrdMap.find?_insert, if_pos rfl, fills.listed]
    exact ⟨rfl, Or.inr ⟨Nat.le_refl _, grown.size⟩⟩
  refine ⟨⟨declared.kept, Nat.le_of_lt grown.size, ?_, ?_, ?_, ?_, ?_, ?_⟩, resolves, grown.size, ⟨grown.parent, ?_⟩, ?_,
    grown.same, grown.widened⟩
  · intro id lt
    by_cases here : id = scope
    · subst here
      exact ⟨_, grown.widened⟩
    · exact ⟨[], by rw [grown.same lt here, Node.giveChildren_nil]⟩
  · intro id lt
    rw [fills.listed]
    exact ⟨fun here => here.resolve_right fun new => absurd lt (Nat.not_lt_of_le new.1), Or.inl⟩
  · intro X other
    rw [declared.bound, OrdMap.find?_insert, if_neg other]
  · rintro X rfl
    refine ⟨w.store.nodes.size, Nat.le_refl _, resolves, ?_, ?_, b, ?_⟩
    · rw [head, declared.kept.symbol]
    · rw [head, declared.kept.symbol]
    · rw [head]
  · rintro X Y id rfl rfl _ _
    rfl
  · intro id b' above body
    rcases Nat.eq_or_lt_of_le above with rfl | behind
    · exact ⟨symbol, rfl, resolves⟩
    · exact absurd body (declared.only behind)
  · rw [grown.children container, if_pos rfl]
    exact List.mem_append_right _ (List.mem_singleton_self _)
  · rw [Store.isContainer, head]
    rfl

/-! ## Conversion as a relation -/

/-- Symbols are converted in a scope one after the other, each with all its members. -/
inductive Converts : Workspace → NodeId → List SymbolId → Workspace → Prop
  | nil (w : Workspace) (scope : NodeId) : Converts w scope [] w
  | known {w w' : Workspace} {scope id : NodeId} {symbol : SymbolId} {symbols : List SymbolId} :
      w.declarationOf? symbol = some id → Converts w scope symbols w' → Converts w scope (symbol :: symbols) w'
  | undescribed {w w' : Workspace} {scope : NodeId} {symbol : SymbolId} {symbols : List SymbolId} :
      w.declarationOf? symbol = none → (w.store.symbol symbol).description = none →
      Converts (w.report .debug .conversion ((w.store.symbol symbol).display ++ " has no declaration, skipping"))
        scope symbols w' →
      Converts w scope (symbol :: symbols) w'
  | fresh {w w₁ w' : Workspace} {scope : NodeId} {symbol : SymbolId} {symbols : List SymbolId} {d : Description} :
      w.declarationOf? symbol = none → (w.store.symbol symbol).description = some d →
      Converts ((w.declare scope symbol d).2.announce scope w.store.nodes.size) w.store.nodes.size d.members w₁ →
      Converts w₁ scope symbols w' → Converts w scope (symbol :: symbols) w'

theorem Converts.append (first : Converts w scope symbols w₁) {symbols' : List SymbolId}
    (rest : Converts w₁ scope symbols' w') : Converts w scope (symbols ++ symbols') w' := by
  induction first with
  | nil => exact rest
  | known declared _ ih => exact .known declared (ih rest)
  | undescribed unbound none _ ih => exact .undescribed unbound none (ih rest)
  | fresh unbound described members _ _ ih => exact .fresh unbound described members (ih rest)

/-- What is due with a pending symbol in front: the symbol, what is due with its members once it is declared, and what
is due with the others after that. -/
theorem due_cons_of_pending (pending : w.Pending symbol) (only : w.DeclarationsOnly)
    (members : w.store.membersOf symbol = d.members) (first : Spawns w (· = symbol) w₁)
    (inner : Spawns w₁ (Due w₁ d.members) w₂) {X : SymbolId} :
    (X = symbol ∨ Due w₁ d.members X) ∨ Due w₂ symbols X ↔ Due w (symbol :: symbols) X := by
  have only₁ := first.declarationsOnly only
  have pending₁ {Y : SymbolId} : w₁.Pending Y ↔ w.Pending Y ∧ Y ≠ symbol := first.pending_iff only
  have pending₂ {Y : SymbolId} : w₂.Pending Y ↔ w₁.Pending Y ∧ ¬Due w₁ d.members Y := inner.pending_iff only₁
  have root : Due w (symbol :: symbols) symbol := .root List.mem_cons_self pending
  -- A pending symbol is in front, or due with the members, or pending still when these are converted.
  have split {Y : SymbolId} (here : w.Pending Y) : (Y = symbol ∨ Due w₁ d.members Y) ∨ w₂.Pending Y := by
    by_cases first : Y = symbol
    · exact Or.inl (Or.inl first)
    · by_cases below : Due w₁ d.members Y
      · exact Or.inl (Or.inr below)
      · exact Or.inr (pending₂.2 ⟨pending₁.2 ⟨here, first⟩, below⟩)
  constructor
  · rintro ((rfl | below) | later)
    · exact root
    · refine below.mono first.membersOf (fun Y here => (pending₁.1 here).1) fun Y mem here => ?_
      exact .member root (members ▸ mem) (pending₁.1 here).1
    · refine later.mono (inner.membersOf.trans first.membersOf)
        (fun Y here => (pending₁.1 (pending₂.1 here).1).1) fun Y mem here => ?_
      exact .root (List.mem_cons_of_mem _ mem) (pending₁.1 (pending₂.1 here).1).1
  · intro h
    induction h with
    | @root Y mem here =>
      refine (split here).imp_right fun still => ?_
      rcases List.mem_cons.1 mem with rfl | mem
      · exact absurd rfl (pending₁.1 (pending₂.1 still).1).2
      · exact .root mem still
    | @member owner Y _ mem here ih =>
      rcases split here with known | still
      · exact Or.inl known
      · obtain ⟨still₁, notBelow⟩ := pending₂.1 still
        rcases ih with (rfl | below) | later
        · exact absurd (.root (members ▸ mem) still₁) notBelow
        · exact absurd (.member below (first.membersOf ▸ mem) still₁) notBelow
        · exact Or.inr (.member later ((inner.membersOf.trans first.membersOf) ▸ mem) still)

/-- The due symbols are declared, each below the scope or below a due owner, and nothing else happens to the tree. -/
structure Brings (w : Workspace) (scope : NodeId) (symbols : List SymbolId) (w' : Workspace) : Prop
    extends Spawns w (Due w symbols) w' where
  same : ∀ {id}, id < w.store.nodes.size → id ≠ scope → w'.store.node id = w.store.node id
  placed : ∀ {X id}, Due w symbols X → w'.nodeOf? X = some id → (X ∈ symbols ∧ w'.store.Under id scope) ∨
    ∃ owner above, Due w symbols owner ∧ X ∈ w.store.membersOf owner ∧ w'.nodeOf? owner = some above ∧
      w'.store.Under id above

/-- What a symbol that is not pending leaves to the others. -/
theorem Brings.cons (h : Brings w₁ scope symbols w') (q : Quiet w w₁) (only : w.DeclarationsOnly)
    (known : ¬w.Pending symbol) : Brings w scope (symbol :: symbols) w' := by
  have first := Spawns.of_quiet q
  have members : w₁.store.membersOf = w.store.membersOf := first.membersOf
  have pending {X : SymbolId} : w₁.Pending X ↔ w.Pending X := by
    rw [first.pending_iff only]
    exact and_iff_left id
  have same {X : SymbolId} : Due w₁ symbols X ↔ Due w (symbol :: symbols) X := by
    rw [due_cons_of_not_pending known]
    constructor
    · intro here
      exact here.mono members (fun _ => pending.1) fun Y mem here => .root mem (pending.1 here)
    · intro here
      exact here.mono members.symm (fun _ => pending.2) fun Y mem here => .root mem (pending.2 here)
  refine ⟨(first.trans h.toSpawns only fun _ here => here.pending).of_iff fun X => ?_, fun {id} inside other => ?_,
    fun {X id} due eq => ?_⟩
  · rw [false_or]
    exact same
  · rw [← q.store] at inside ⊢
    exact h.same inside other
  · rcases h.placed (same.2 due) eq with ⟨mem, under⟩ | ⟨owner, above, due', mem, eq', under⟩
    · exact Or.inl ⟨List.mem_cons_of_mem _ mem, under⟩
    · exact Or.inr ⟨owner, above, same.1 due', members ▸ mem, eq', under⟩

/-- What a pending symbol brings: its declaration, what is due with its members below it, and what the others bring after
that. -/
theorem Brings.fresh {w₀ : Workspace} (pending : w.Pending symbol) (only : w.DeclarationsOnly)
    (members : w.store.membersOf symbol = d.members) (first : Heads w scope symbol w₀)
    (inner : Brings w₀ w.store.nodes.size d.members w₁) (later : Brings w₁ scope symbols w') :
    Brings w scope (symbol :: symbols) w' := by
  have only₀ := first.declarationsOnly only
  have only₁ := inner.declarationsOnly only₀
  have due {X : SymbolId} : (X = symbol ∨ Due w₀ d.members X) ∨ Due w₁ symbols X ↔ Due w (symbol :: symbols) X :=
    due_cons_of_pending pending only members first.toSpawns inner.toSpawns
  have both := first.trans inner.toSpawns only fun _ here => here.pending
  have all := (both.trans later.toSpawns only fun _ here => here.pending).of_iff fun X => due
  have settled {X : SymbolId} {id : NodeId} (eq : w₁.nodeOf? X = some id) : w'.nodeOf? X = some id := by
    rw [later.nodeOf?_eq only₁ fun here => ?_]
    · exact eq
    · rw [here.pending.1] at eq
      cases eq
  have hung {id parent : NodeId} {X : SymbolId} (eq : w₁.nodeOf? X = some id) (under : w₁.store.Under id parent) :
      w'.store.Under id parent := later.under (only₁.lt (nodeOf?_eq_some_iff.1 eq).1) under
  have head : w₁.nodeOf? symbol = some w.store.nodes.size := by
    rw [inner.nodeOf?_eq only₀ (first.not_due only)]
    exact first.resolves
  have top : w'.store.Under w.store.nodes.size scope := hung head (inner.under first.inside first.hangs)
  refine ⟨all, fun {id} lt other => ?_, fun {X id} here eq => ?_⟩
  · have lt₀ := Nat.lt_of_lt_of_le lt first.size
    rw [later.same (Nat.lt_of_lt_of_le lt₀ inner.size) other, inner.same lt₀ (Nat.ne_of_lt lt)]
    exact first.same lt other
  · rcases due.2 here with (rfl | within) | after
    · rw [settled head] at eq
      cases eq
      exact Or.inl ⟨List.mem_cons_self, top⟩
    · obtain ⟨id', _, eq', _⟩ := inner.due within
      rw [settled eq'] at eq
      cases eq
      rcases inner.placed within eq' with ⟨mem, under⟩ | ⟨owner, above, within', mem, eq'', under⟩
      · exact Or.inr ⟨symbol, _, .root List.mem_cons_self pending, members ▸ mem, settled head, hung eq' under⟩
      · exact Or.inr ⟨owner, above, due.1 (Or.inl (Or.inr within')), first.membersOf ▸ mem, settled eq'',
          hung eq' under⟩
    · rcases later.placed after eq with ⟨mem, under⟩ | ⟨owner, above, after', mem, eq', under⟩
      · exact Or.inl ⟨List.mem_cons_of_mem _ mem, under⟩
      · exact Or.inr ⟨owner, above, due.1 (Or.inr after'), (inner.membersOf.trans first.membersOf) ▸ mem, eq',
          under⟩

/-- Conversion declares exactly the symbols that are due. -/
theorem Converts.brings (converts : Converts w scope symbols w') (only : w.DeclarationsOnly)
    (container : w.store.isContainer scope = true) : Brings w scope symbols w' := by
  induction converts with
  | nil w scope =>
    refine ⟨(Spawns.of_quiet (Quiet.refl w)).of_iff fun X => ?_, fun _ _ => rfl, fun due => absurd due not_due_nil⟩
    exact iff_of_false id not_due_nil
  | @known w w' scope id symbol symbols bound _ ih =>
    rw [only.declarationOf?_eq] at bound
    apply (ih only container).cons (Quiet.refl w) only
    rintro ⟨none, _⟩
    rw [bound] at none
    cases none
  | @undescribed w w' scope symbol symbols _ none _ ih =>
    have q := quiet_report w .debug .conversion ((w.store.symbol symbol).display ++ " has no declaration, skipping")
    apply (ih (only.quiet q) container).cons q only
    rintro ⟨_, d, described⟩
    rw [none] at described
    cases described
  | @fresh w w₁ w' scope symbol symbols d unbound described members rest ih ih' =>
    rw [only.declarationOf?_eq] at unbound
    have first := (heads_declare container symbol d).quiet (quiet_announce _ scope w.store.nodes.size) only
    have only₀ := first.declarationsOnly only
    have inner := ih only₀ first.container
    have later := ih' (inner.declarationsOnly only₀) (inner.isContainer (first.toSpawns.isContainer container))
    exact .fresh ⟨unbound, d, described⟩ only (Store.membersOf_eq described) first inner later

/-! ## Going down -/

/-- The symbols that are bound to nothing. -/
def unbound (w : Workspace) : Finset SymbolId :=
  (Finset.range w.store.symbols.size).filter fun symbol => w.nodeOf? symbol = none

theorem card_unbound_le (w : Workspace) : w.unbound.card ≤ w.store.symbols.size := by
  rw [← Finset.card_range w.store.symbols.size]
  exact Finset.card_filter_le ..

theorem Spawns.unbound_subset (h : Spawns w R w') (only : w.DeclarationsOnly) : w'.unbound ⊆ w.unbound := by
  intro X mem
  obtain ⟨inside, none⟩ := Finset.mem_filter.1 mem
  refine Finset.mem_filter.2 ⟨h.kept.symbols ▸ inside, ?_⟩
  by_cases here : R X
  · obtain ⟨id, _, eq, _⟩ := h.due here
    rw [none] at eq
    cases eq
  · exact (h.nodeOf?_eq only here).symm.trans none

theorem Spawns.card_unbound_lt (h : Spawns w R w') (only : w.DeclarationsOnly) {X : SymbolId} (here : R X)
    (pending : w.Pending X) : w'.unbound.card < w.unbound.card := by
  obtain ⟨none, d, described⟩ := pending
  obtain ⟨id, _, eq, _⟩ := h.due here
  apply Finset.card_lt_card
  refine (Finset.ssubset_iff_of_subset (h.unbound_subset only)).2 ⟨X, ?_, fun mem => ?_⟩
  · exact Finset.mem_filter.2 ⟨Finset.mem_range.2 (Store.lt_of_described described), none⟩
  · rw [(Finset.mem_filter.1 mem).2] at eq
    cases eq

/-- What converting a symbol does, if it goes down as many levels as there are symbols unbound. -/
theorem converts_of_declarationsOnly (depth : Nat) (symbol : SymbolId) (only : w.DeclarationsOnly)
    (container : w.store.isContainer scope = true) (enough : w.unbound.card < depth) :
    Converts w scope [symbol] (convertIn depth w scope symbol).2 ∧
      (convertIn depth w scope symbol).1 =
        (w.nodeOf? symbol).or ((w.store.symbol symbol).description.map fun _ => w.store.nodes.size) := by
  induction depth generalizing w scope symbol with
  | zero => exact absurd enough (Nat.not_lt_zero _)
  | succ depth ih =>
    have all : ∀ (members : List SymbolId) {w : Workspace} {scope : NodeId}, w.DeclarationsOnly →
        w.store.isContainer scope = true → w.unbound.card < depth →
        Converts w scope members (members.foldl (fun w member => (convertIn depth w scope member).2) w) := by
      intro members
      induction members with
      | nil => exact fun _ _ _ => .nil _ _
      | cons member members ihm =>
        intro w scope only container enough
        have first : Converts w scope [member] (convertIn depth w scope member).2 :=
          (ih member only container enough).1
        have brings := first.brings only container
        have fewer := Finset.card_le_card (brings.unbound_subset only)
        exact first.append (ihm (brings.declarationsOnly only) (brings.isContainer container)
          (Nat.lt_of_le_of_lt fewer enough))
    have eq := only.declarationOf?_eq symbol
    unfold convertIn
    cases here : w.nodeOf? symbol with
    | some id =>
      rw [here] at eq
      rw [eq]
      exact ⟨.known eq (.nil _ _), rfl⟩
    | none =>
      rw [here] at eq
      rw [eq]
      cases described : (w.store.symbol symbol).description with
      | none =>
        simp only [described]
        exact ⟨.undescribed eq described (.nil _ _), rfl⟩
      | some d =>
        have first := (heads_declare container symbol d).quiet (quiet_announce _ scope w.store.nodes.size) only
        have fewer := first.card_unbound_lt only rfl ⟨here, d, described⟩
        have members := all d.members (first.declarationsOnly only) first.container (by omega)
        simp only [described, declare_fst]
        exact ⟨.fresh eq described members (.nil _ _), rfl⟩

end Workspace

theorem Sound.declarationsOnly {g : Ground} {w : Workspace} (h : Sound g w) : w.DeclarationsOnly := by
  intro symbol id bound
  obtain ⟨_, _, b, eq⟩ := h.bound ((h.consistent.nodeOf?_eq symbol).trans bound)
  exact ⟨b, eq⟩

end DocTree
