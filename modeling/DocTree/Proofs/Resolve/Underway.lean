import DocTree.Proofs.Resolve.Step

/-!
# A module under resolution

* `Underway g job u tried p` : how far a module has come since its turn began in `u`: below the module
  stands nothing new but the namespace, and no symbol got a node but those tried and their members;
* `Underway.step` : whatever becomes of a symbol, this stays so;
* `Underway.outgrows` : to a lookup, the tree has only grown by the namespace.
-/

namespace DocTree

open Workspace

/-- How far a module has come since its turn began in `u`. -/
structure Underway (g : Ground) (job : Job) (u : Workspace) (tried : List SymbolId) (p : Progress) : Prop where
  fits : Fits g job p
  symbols : p.workspace.store.symbols = u.store.symbols
  settings : p.workspace.settings = u.settings
  size_le : u.store.nodes.size ≤ p.workspace.store.nodes.size
  module_lt : job.module < u.store.nodes.size
  same : ∀ {id}, id < u.store.nodes.size → id ≠ job.module → p.workspace.store.node id = u.store.node id
  module : p.workspace.store.node job.module = (u.store.node job.module).giveChildren p.internal.toList
  internal : ∀ {id}, p.internal = some id → u.store.nodes.size ≤ id ∧ ∃ children, p.workspace.store.node id =
    ⟨job.policy.namespaceName, .nameSpace, some job.module, .declaration { children := children }⟩
  creates : p.internal.isSome → job.policy.linkOnly = false
  children : ∀ {id c}, u.store.nodes.size ≤ id → c ∈ p.workspace.store.children id → u.store.nodes.size ≤ c
  bound : ∀ {symbol id}, u.nodeOf? symbol = some id → p.workspace.nodeOf? symbol = some id
  fresh : ∀ {symbol id}, p.workspace.nodeOf? symbol = some id →
    u.nodeOf? symbol = some id ∨ symbol ∈ tried ∨ g.top ≤ symbol

variable {g : Ground} {job : Job} {u : Workspace} {tried : List SymbolId} {p q : Progress} {symbol : SymbolId}

theorem Catalog.eq_or_le_of_owns {s : Store} (h : Catalog g s) {a b : SymbolId} (owns : s.Owns a b) :
    b = a ∨ g.top ≤ b := by
  rcases Relation.ReflTransGen.cases_tail owns with eq | ⟨c, _, step⟩
  · exact Or.inl eq
  · exact Or.inr (h.members step).1

namespace Underway

/-- The turn of a module begins. -/
theorem start (h : Fits g job p) (fresh : p.internal = none) : Underway g job p.workspace tried p where
  fits := h
  symbols := rfl
  settings := rfl
  size_le := Nat.le_refl _
  module_lt := h.inside
  same := fun _ _ => rfl
  module := by rw [fresh]; exact (Node.giveChildren_nil _).symm
  internal := fun eq => by rw [fresh] at eq; cases eq
  creates := fun some => by rw [fresh] at some; cases some
  children := fun outside mem => by rw [Store.children_of_size_le outside] at mem; cases mem
  bound := fun eq => eq
  fresh := fun eq => Or.inl eq

/-- Notes and reports change nothing. -/
theorem noted (h : Underway g job u tried p) {w : Workspace} (quiet : Quiet p.workspace w) (r : ModuleReport)
    {tried' : List SymbolId} (sub : ∀ symbol ∈ tried, symbol ∈ tried') : Underway g job u tried' ⟨w, r, p.internal⟩ where
  fits := by
    refine ⟨h.fits.sound.quiet quiet, fun m mem => ?_, h.fits.module, h.fits.proper, fun eq => ?_⟩
    · exact quiet.store ▸ h.fits.containers m mem
    · obtain ⟨above, container, active⟩ := h.fits.internal eq
      exact ⟨above, quiet.store ▸ container, quiet.active.trans active⟩
  symbols := (congrArg Store.symbols quiet.store).trans h.symbols
  settings := quiet.settings.trans h.settings
  size_le := quiet.store ▸ h.size_le
  module_lt := h.module_lt
  same := fun inside ne => quiet.store ▸ h.same inside ne
  module := quiet.store ▸ h.module
  internal := fun eq => quiet.store ▸ h.internal eq
  creates := h.creates
  children := fun outside mem => h.children outside (quiet.store ▸ mem)
  bound := fun eq => (quiet.nodeOf? _).trans (h.bound eq)
  fresh := fun eq => (h.fresh ((quiet.nodeOf? _).symm.trans eq)).imp_right fun rest => rest.imp_left (sub _)

/-- A tried symbol gets a node that is there. -/
theorem register (h : Underway g job u tried p) (named : symbol < g.top)
    (unbound : p.workspace.nodeOf? symbol = none) {id : NodeId} (known : p.workspace.namesake? symbol = some id) :
    Underway g job u (tried ++ [symbol])
      { p with workspace := p.workspace.register job.module id (some symbol) } := by
  have kept := kept_register p.workspace job.module id (some symbol)
  have node := node_register p.workspace job.module id (some symbol)
  have nodeOf? := nodeOf?_register h.fits.sound.consistent job.module id (some symbol)
  have container : ∀ id', (p.workspace.register job.module id (some symbol)).store.isContainer id' =
      p.workspace.store.isContainer id' := fun id' => by rw [Store.isContainer, node]; rfl
  refine ⟨⟨h.fits.sound.register job.module named unbound (declaration_of_namesake h.fits.sound known), fun m mem => ?_,
    h.fits.module, h.fits.proper, fun eq => ?_⟩, kept.symbols.trans h.symbols, kept.settings.trans h.settings, ?_,
    h.module_lt, fun inside ne => (node _).trans (h.same inside ne), (node _).trans h.module, fun eq => ?_, h.creates,
    fun outside mem => ?_, fun {symbol' id'} eq => ?_, fun {symbol' id'} eq => ?_⟩
  · exact (container m).trans (h.fits.containers m mem)
  · obtain ⟨above, inner, active⟩ := h.fits.internal eq
    exact ⟨above, (container _).trans inner, active⟩
  · show _ ≤ (p.workspace.register _ _ _).store.nodes.size
    rw [nodes_register]
    exact h.size_le
  · obtain ⟨above, children, eq⟩ := h.internal eq
    exact ⟨above, children, (node _).trans eq⟩
  · rw [Store.children, node] at mem
    exact h.children outside mem
  · rw [nodeOf?, if_neg, h.bound eq]
    intro same
    cases same
    rw [h.bound eq] at unbound
    cases unbound
  · rw [nodeOf?] at eq
    split at eq
    · rename_i same
      cases same
      exact Or.inr (Or.inl (List.mem_append_right _ (List.mem_singleton_self _)))
    · exact (h.fresh eq).imp_right fun rest => rest.imp_left (List.mem_append_left _)

/-- The namespace is created. -/
theorem opens (h : Underway g job u tried p) (creates : job.policy.linkOnly = false) {id : NodeId}
    (opens : Opens job p id q) : Underway g job u tried q := by
  have prepared := opens.prepared h.fits
  cases opens with
  | «open» => exact h
  | @created w bare quiet =>
    have module : p.workspace.store.node job.module = u.store.node job.module := by
      rw [h.module, bare]
      exact Node.giveChildren_nil _
    have node : ∀ id, w.store.node id =
        if id = p.workspace.store.nodes.size then
          ⟨job.policy.namespaceName, .nameSpace, some job.module, .declaration {}⟩
        else if id = job.module then (p.workspace.store.node job.module).giveChildren [p.workspace.store.nodes.size]
        else p.workspace.store.node id := fun id => (congrArg (Store.node · id) quiet.store).trans
      (node_create (w := p.workspace.activate job.program) _ _ none h.fits.inside id)
    have size : w.store.nodes.size = p.workspace.store.nodes.size + 1 :=
      (congrArg (·.nodes.size) quiet.store).trans size_create
    have old : ∀ {id}, id < u.store.nodes.size → id ≠ p.workspace.store.nodes.size := fun inside =>
      Nat.ne_of_lt (Nat.lt_of_lt_of_le inside h.size_le)
    refine ⟨prepared.fits, prepared.symbols.trans h.symbols, ?_, ?_, h.module_lt, fun {id} inside ne => ?_, ?_, ?_,
      fun _ => creates, fun {id c} outside mem => ?_, fun eq => ?_, fun eq => ?_⟩
    · exact (quiet.settings.trans (kept_create ..).settings).trans h.settings
    · exact Nat.le_trans h.size_le (size ▸ Nat.le_succ _)
    · exact (node id).trans (by rw [if_neg (old inside), if_neg ne]; exact h.same inside ne)
    · refine (node job.module).trans ?_
      rw [if_neg (old h.module_lt), if_pos rfl, ← module]
      rfl
    · rintro id ⟨⟩
      exact ⟨h.size_le, [], (node _).trans (if_pos rfl)⟩
    · rw [Store.children, show w.store.node id = _ from node id] at mem
      split at mem
      · cases mem
      · split at mem
        · rename_i here
          exact absurd (here ▸ h.module_lt) (Nat.not_lt_of_le outside)
        · exact h.children outside mem
    · exact (prepared.nodeOf? _).trans (h.bound eq)
    · exact h.fresh ((prepared.nodeOf? _).symm.trans eq)

/-- A tried symbol is converted in the namespace. -/
theorem converts (h : Underway g job u tried p) (named : symbol < g.top) {id : NodeId} (internal : p.internal = some id)
    {w : Workspace} (converts : Converts p.workspace id [symbol] w) :
    Underway g job u (tried ++ [symbol]) { p with workspace := w } := by
  obtain ⟨above, container, active⟩ := h.fits.internal internal
  obtain ⟨outside, children, eq⟩ := h.internal internal
  have hosts : Hosts g p.workspace id [symbol] := ⟨h.fits.sound, Or.inr above, container,
    fun symbol' mem => Or.inl (List.mem_singleton.1 mem ▸ named)⟩
  have spec := converts.spec hosts
  have ext := spec.ext
  obtain ⟨ids, new, widened⟩ := ext.widened
  have same : ∀ {id'}, id' < u.store.nodes.size → w.store.node id' = p.workspace.store.node id' := by
    intro id' inside
    exact ext.same (Nat.lt_of_lt_of_le inside h.size_le) (Nat.ne_of_lt (Nat.lt_of_lt_of_le inside outside))
  have containers : ∀ {id'}, p.workspace.store.isContainer id' = true → w.store.isContainer id' = true := by
    intro id' container
    by_cases here : id' = id
    · rw [here, Store.isContainer, widened, Node.giveChildren_body, Node.isContainer_mapChildren]
      exact here ▸ container
    · rw [Store.isContainer, ext.same (Store.lt_of_isContainer container) here]
      exact container
  refine ⟨⟨spec.sound, fun m mem => containers (h.fits.containers m mem), h.fits.module, h.fits.proper, fun eq => ?_⟩,
    ext.kept.symbols.trans h.symbols, ext.kept.settings.trans h.settings, Nat.le_trans h.size_le ext.size, h.module_lt,
    fun inside ne => (same inside).trans (h.same inside ne), (same h.module_lt).trans h.module, fun {id'} eq' => ?_,
    h.creates, fun outside mem => ?_, fun eq => ext.bound (h.bound eq), fun {symbol' id'} eq' => ?_⟩
  · obtain ⟨above, container, active⟩ := h.fits.internal eq
    exact ⟨above, containers container, ext.kept.active.trans active⟩
  · obtain rfl : id = id' := Option.some.inj (internal.symm.trans eq')
    refine ⟨outside, children ++ ids, ?_⟩
    show w.store.node id = _
    rw [widened, eq]
    rfl
  · rcases ext.children mem with old | new
    · exact h.children outside old
    · exact Nat.le_trans h.size_le new
  · cases before : p.workspace.nodeOf? symbol' with
    | some id'' =>
      rw [show w.nodeOf? symbol' = _ from ext.bound before] at eq'
      cases eq'
      exact (h.fresh before).imp_right fun rest => rest.imp_left (List.mem_append_left _)
    | none =>
      obtain ⟨_, _, root, here, owns⟩ := ext.fresh before eq'
      rw [List.mem_singleton] at here
      subst here
      rcases h.fits.sound.catalog.eq_or_le_of_owns owns with rfl | member
      · exact Or.inr (Or.inl (List.mem_append_right _ (List.mem_singleton_self _)))
      · exact Or.inr (Or.inr member)

/-- Whatever becomes of a symbol, the module stays under way. -/
theorem step (h : Underway g job u tried p) (named : symbol < g.top) (unbound : p.workspace.nodeOf? symbol = none)
    (resolves : Resolves job p symbol q) : Underway g job u (tried ++ [symbol]) q := by
  have more : ∀ symbol' ∈ tried, symbol' ∈ tried ++ [symbol] := fun _ => List.mem_append_left _
  cases resolves with
  | skipped => exact h.noted (Quiet.refl _) _ more
  | dropped _ _ _ quiet => exact h.noted quiet _ more
  | aliased _ known _ quiet => exact (h.register named unbound known).noted quiet _ fun _ mem => mem
  | unresolved => exact h.noted (Quiet.refl _) _ more
  | undescribed _ _ creates _ opens _ quiet => exact (h.opens creates opens).noted quiet _ more
  | synthesized _ _ creates _ opens _ converts quiet =>
    have internal := (opens.prepared h.fits).internal
    exact ((h.opens creates opens).converts named internal converts).noted quiet _ fun _ mem => mem

/-- A symbol that had no node and was not tried has none. -/
theorem unbound (h : Underway g job u tried p) (none : u.nodeOf? symbol = none) (named : symbol < g.top)
    (untried : symbol ∉ tried) : p.workspace.nodeOf? symbol = .none := by
  cases eq : p.workspace.nodeOf? symbol with
  | none => rfl
  | some id =>
    rcases h.fresh eq with before | tried | member
    · rw [none] at before
      cases before
    · exact absurd tried untried
    · exact absurd named (Nat.not_lt_of_le member)

/-- To a lookup, the tree has only grown by the namespace. -/
theorem outgrows (h : Underway g job u tried p) (label : Value)
    (called : job.policy.linkOnly = false → job.policy.namespaceName = label) :
    Store.Outgrows u.store p.workspace.store label where
  size := h.size_le
  name := fun {id} inside => by
    by_cases here : id = job.module
    · rw [here, h.module]
      rfl
    · rw [h.same inside here]
  kind := fun {id} inside => by
    by_cases here : id = job.module
    · rw [here, h.module]
      rfl
    · rw [h.same inside here]
  children := fun {id} inside => by
    by_cases here : id = job.module
    · refine ⟨p.internal.toList, ?_, fun c mem => ?_⟩
      · have container := h.fits.containers _ h.fits.module
        rw [Store.isContainer, h.module, Node.giveChildren_body, Node.isContainer_mapChildren] at container
        rw [here, Store.children, h.module, Node.giveChildren_body, Body.children_mapChildren container]
        rfl
      · rw [Option.mem_toList] at mem
        obtain ⟨above, children, eq⟩ := h.internal mem
        rw [eq]
        exact ⟨above, called (h.creates (by rw [show p.internal = some c from mem]; rfl)), rfl⟩
    · exact ⟨[], by rw [Store.children, h.same inside here, List.append_nil]; rfl, List.forall_mem_nil _⟩
  fresh := h.children

end Underway

end DocTree
