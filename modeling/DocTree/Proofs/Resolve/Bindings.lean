import DocTree.Proofs.Resolve.Completeness
import DocTree.Proofs.Resolve.Reached

/-!
# Every symbol in one pair

* `Workspace.pairs` : the pairs that are bound in any scope;
* `Exact w` : no symbol occurs in two of them, they say what symbols resolve to, and so do the symbols
  listed for each node;
* `Filed w` : the same scope by scope, and where a scope binds what it does not hold; `Filed.register`,
  `Filed.declare`, `Filed.remove` : operations keep it; `Run.filed` : so does a run.
-/

namespace DocTree

open Workspace

variable {g : Ground} {extras : Set (Kind × Value)} {u w w₁ w' : Workspace} {scope id : NodeId} {symbol : SymbolId}
  {made : Made}

/-- The pairs of a symbol and a node that are bound, of all scopes. -/
def Workspace.pairs (w : Workspace) : List (SymbolId × NodeId) := w.bindings.values.flatten

/-- Bindings and indexes say the same of every symbol, and the bindings say it once. -/
structure Exact (w : Workspace) : Prop where
  once : (w.pairs.map Prod.fst).Nodup
  pairs : ∀ symbol id, (symbol, id) ∈ w.pairs ↔ w.nodeOf? symbol = some id
  distinct : ∀ id, (w.index.symbolsOf id).Nodup
  symbols : ∀ id symbol, symbol ∈ w.index.symbolsOf id ↔ w.nodeOf? symbol = some id

/-- The bindings scope by scope. A scope that is neither a module nor the project binds only what it holds. -/
structure Filed (w : Workspace) : Prop where
  nodup : ∀ scope, ((w.bound scope).map Prod.fst).Nodup
  apart : ∀ {a b symbol id id'}, (symbol, id) ∈ w.bound a → (symbol, id') ∈ w.bound b → a = b
  pairs : ∀ {symbol id}, (∃ scope, (symbol, id) ∈ w.bound scope) ↔ w.nodeOf? symbol = some id
  held : ∀ {scope symbol id}, (symbol, id) ∈ w.bound scope →
    id ∈ w.store.children scope ∨ (w.store.node scope).isKind trackedKinds = true
  distinct : ∀ id, (w.index.symbolsOf id).Nodup
  symbols : ∀ {id symbol}, symbol ∈ w.index.symbolsOf id ↔ w.nodeOf? symbol = some id

/-! ## Scopes taken together -/

theorem bound_eq_of_mem {pairs : List (SymbolId × NodeId)} (mem : (scope, pairs) ∈ w.bindings.entries) :
    w.bound scope = pairs := by
  unfold bound
  rw [(w.bindings.find?_eq_some_iff scope pairs).2 mem]
  rfl

theorem mem_pairs_iff {pair : SymbolId × NodeId} : pair ∈ w.pairs ↔ ∃ scope, pair ∈ w.bound scope := by
  unfold Workspace.pairs OrdMap.values
  constructor
  · intro mem
    obtain ⟨_, listed, here⟩ := List.mem_flatten.1 mem
    obtain ⟨⟨scope, pairs⟩, entry, rfl⟩ := List.mem_map.1 listed
    exact ⟨scope, bound_eq_of_mem entry ▸ here⟩
  · rintro ⟨scope, mem⟩
    unfold bound at mem
    cases found : w.bindings.find? scope with
    | none =>
      rw [found] at mem
      cases mem
    | some pairs =>
      rw [found] at mem
      have entry := (w.bindings.find?_eq_some_iff scope pairs).1 found
      exact List.mem_flatten.2 ⟨pairs, List.mem_map_of_mem (f := Prod.snd) entry, mem⟩

theorem Filed.exact (h : Filed w) : Exact w := by
  refine ⟨?_, fun symbol id => mem_pairs_iff.trans h.pairs, h.distinct, fun id symbol => h.symbols⟩
  have eq : w.pairs.map Prod.fst = w.bindings.entries.flatMap fun e => e.2.map Prod.fst := by
    unfold Workspace.pairs OrdMap.values
    rw [List.map_flatten, List.map_map, List.flatMap_def]
    rfl
  rw [eq]
  refine List.nodup_flatMap.2 ⟨fun e mem => bound_eq_of_mem mem ▸ h.nodup e.1, ?_⟩
  have distinct : w.bindings.entries.Pairwise fun e e' => e.1 ≠ e'.1 := List.pairwise_map.1 w.bindings.distinct
  refine distinct.imp_of_mem fun mem mem' ne symbol here here' => ?_
  obtain ⟨⟨_, id⟩, inside, rfl⟩ := List.mem_map.1 here
  obtain ⟨⟨_, id'⟩, inside', rfl⟩ := List.mem_map.1 here'
  rw [← bound_eq_of_mem mem] at inside
  rw [← bound_eq_of_mem mem'] at inside'
  exact ne (h.apart inside inside')

/-! ## What operations bind -/

theorem bound_register (w : Workspace) (scope id : NodeId) (symbol : SymbolId) (scope' : NodeId) :
    (w.register scope id (some symbol)).bound scope' =
      if scope' = scope then w.bound scope ++ [(symbol, id)] else w.bound scope' := by
  show ((w.bindings.insert scope _).find? scope').getD [] = _
  rw [OrdMap.find?_insert]
  split <;> rfl

theorem bound_remove (w : Workspace) (id scope : NodeId) (walk : w.store.walk id = [id]) :
    (w.remove id).bound scope = if scope = id then [] else (w.bound scope).filter fun pair => pair.2 ≠ id := by
  show ((pruneBindings (w.store.walk id) w.bindings).find? scope).getD [] = _
  rw [walk]
  unfold pruneBindings
  rw [OrdMap.find?_mapValues, List.foldl_cons, List.foldl_nil, OrdMap.find?_erase]
  split
  · rfl
  · unfold bound
    cases w.bindings.find? scope with
    | none => rfl
    | some pairs =>
      show pairs.filter _ = pairs.filter _
      refine congrArg (pairs.filter ·) (funext fun pair => ?_)
      simp

theorem symbolsOf_forget (i : Index) (id id' : NodeId) :
    (i.forget id).symbolsOf id' = if id' = id then [] else i.symbolsOf id' := by
  unfold Index.symbolsOf Index.forget
  rw [OrdMap.find?_erase]
  split <;> rfl

theorem nodup_symbolsOf_bind {i : Index} (h : ∀ id, (i.symbolsOf id).Nodup) (id : NodeId) (symbol : SymbolId)
    (id' : NodeId) : ((i.bind id symbol).symbolsOf id').Nodup := by
  unfold Index.bind Index.symbolsOf
  simp only [OrdMap.find?_insert]
  split
  · rw [Option.getD_some]
    split
    · exact h id
    · rename_i fresh
      exact List.nodup_append.2 ⟨h id, List.nodup_singleton _, fun a mem b mem' eq =>
        fresh (List.mem_singleton.1 mem' ▸ eq ▸ mem)⟩
  · exact h id'

/-- The parts of a declaration are listed, and bound to nothing. -/
theorem symbolsOf_populate (w : Workspace) (id : NodeId) (d : Description) (id' : NodeId) :
    (w.populate id d).index.symbolsOf id' = w.index.symbolsOf id' := by
  have list : ∀ (w : Workspace) (id : NodeId), (w.list id).index.symbols = w.index.symbols := fun w id => by
    rw [index_list]
    rfl
  have parts : ∀ (ns : List Node) (w : Workspace), (w.addParts ns).2.index.symbols = w.index.symbols := by
    intro ns
    induction ns with
    | nil => exact fun _ => rfl
    | cons n ns ih => exact fun w => (ih _).trans (list { w with store := (w.store.addNode n).2 } _)
  have signature : ∀ (w : Workspace) (shape : SignatureShape),
      (w.addSignature id shape).2.index.symbols = w.index.symbols := by
    intro w shape
    refine (list { ((({ w with store := (w.store.addNode _).2 } : Workspace).addParts
      (shape.typeParameters.map (typeParameterNode w.store.nodes.size))).2.addParts
      (shape.parameters.map (parameterNode w.store.nodes.size))).2 with store := _ } _).trans ?_
    exact (parts _ _).trans (parts _ _)
  have signatures : ∀ (shapes : List SignatureShape) (w : Workspace),
      (w.addSignatures id shapes).2.index.symbols = w.index.symbols := by
    intro shapes
    induction shapes with
    | nil => exact fun _ => rfl
    | cons shape shapes ih => exact fun w => (ih _).trans (signature w shape)
  have all : (w.populate id d).index.symbols = w.index.symbols := (signatures _ _).trans (parts _ _)
  unfold Index.symbolsOf
  rw [all]

/-! ## Operations -/

/-- Where the bindings are the same, and nothing is taken from a scope. -/
theorem Filed.congr (h : Filed w) (bound : ∀ scope, w'.bound scope = w.bound scope)
    (nodeOf? : ∀ symbol, w'.nodeOf? symbol = w.nodeOf? symbol)
    (symbolsOf : ∀ id, w'.index.symbolsOf id = w.index.symbolsOf id)
    (held : ∀ {scope id}, id ∈ w.store.children scope ∨ (w.store.node scope).isKind trackedKinds = true →
      id ∈ w'.store.children scope ∨ (w'.store.node scope).isKind trackedKinds = true) : Filed w' := by
  refine ⟨fun scope => bound scope ▸ h.nodup scope, fun {a b _ _ _} mem mem' => ?_, ?_, fun {scope _ _} mem => ?_,
    fun id => symbolsOf id ▸ h.distinct id, ?_⟩
  · exact h.apart (bound a ▸ mem) (bound b ▸ mem')
  · simp only [bound, nodeOf?]
    exact h.pairs
  · exact held (h.held (bound scope ▸ mem))
  · simp only [symbolsOf, nodeOf?]
    exact h.symbols

/-- A symbol that resolved to nothing is bound. -/
theorem Filed.bind (h : Filed w) (scope id : NodeId) (unbound : w.nodeOf? symbol = none)
    (bound : ∀ scope', w'.bound scope' = if scope' = scope then w.bound scope ++ [(symbol, id)] else w.bound scope')
    (nodeOf? : ∀ symbol', w'.nodeOf? symbol' = if symbol' = symbol then some id else w.nodeOf? symbol')
    (distinct : ∀ id, (w'.index.symbolsOf id).Nodup)
    (symbolsOf : ∀ {id' symbol'}, symbol' ∈ w'.index.symbolsOf id' ↔
      symbol' ∈ w.index.symbolsOf id' ∨ (id' = id ∧ symbol' = symbol))
    (held : ∀ {scope id}, id ∈ w.store.children scope ∨ (w.store.node scope).isKind trackedKinds = true →
      id ∈ w'.store.children scope ∨ (w'.store.node scope).isKind trackedKinds = true)
    (here : id ∈ w'.store.children scope ∨ (w'.store.node scope).isKind trackedKinds = true) : Filed w' := by
  have fresh : ∀ {scope id}, (symbol, id) ∉ w.bound scope := fun mem => by
    rw [h.pairs.1 ⟨_, mem⟩] at unbound
    cases unbound
  have mem_bound : ∀ {scope' symbol' id'}, (symbol', id') ∈ w'.bound scope' ↔
      (symbol', id') ∈ w.bound scope' ∨ (scope' = scope ∧ symbol' = symbol ∧ id' = id) := by
    intro scope' symbol' id'
    rw [bound]
    split
    · rename_i same
      rw [List.mem_append, List.mem_singleton, Prod.mk.injEq, same]
      simp only [true_and]
    · rename_i other
      simp only [other, false_and, or_false]
  refine ⟨fun scope' => ?_, fun {a b symbol' id' id''} mem mem' => ?_, fun {symbol' id'} => ?_,
    fun {scope' symbol' id'} mem => ?_, distinct, fun {id' symbol'} => ?_⟩
  · rw [bound]
    split
    · rw [List.map_append, List.nodup_append]
      refine ⟨h.nodup scope, List.nodup_singleton _, fun a mem b mem' eq => ?_⟩
      obtain ⟨⟨_, id'⟩, inside, rfl⟩ := List.mem_map.1 mem
      rw [List.map_cons, List.map_nil, List.mem_singleton] at mem'
      cases eq.trans mem'
      exact fresh inside
    · exact h.nodup scope'
  · rcases mem_bound.1 mem with mem | ⟨rfl, rfl, _⟩
    · rcases mem_bound.1 mem' with mem' | ⟨_, rfl, _⟩
      · exact h.apart mem mem'
      · exact absurd mem fresh
    · rcases mem_bound.1 mem' with mem' | ⟨rfl, _, _⟩
      · exact absurd mem' fresh
      · rfl
  · simp only [mem_bound, exists_or, h.pairs, nodeOf?]
    by_cases same : symbol' = symbol
    · rw [if_pos same, same, unbound]
      simp [eq_comm]
    · simp [same]
  · rcases mem_bound.1 mem with mem | ⟨rfl, rfl, rfl⟩
    · exact held (h.held mem)
    · exact here
  · rw [symbolsOf, h.symbols, nodeOf?]
    by_cases same : symbol' = symbol
    · rw [if_pos same, same, unbound]
      simp [eq_comm]
    · simp [same]

theorem Filed.bound_eq_nil (h : Filed w) (bare : (w.store.node id).body = .declaration {})
    (plain : (w.store.node id).isKind trackedKinds = false) : w.bound id = [] := by
  refine List.eq_nil_iff_forall_not_mem.2 fun ⟨symbol, id'⟩ mem => ?_
  rcases h.held mem with child | tracked
  · rw [Store.children, bare] at child
    cases child
  · rw [plain] at tracked
    cases tracked

theorem Filed.mem_bound_remove (h : Filed w) (inside : id < w.store.nodes.size)
    (bare : (w.store.node id).body = .declaration {}) (plain : (w.store.node id).isKind trackedKinds = false)
    {id' : NodeId} : (symbol, id') ∈ (w.remove id).bound scope ↔ (symbol, id') ∈ w.bound scope ∧ id' ≠ id := by
  rw [bound_remove w id scope (Store.walk_bare inside bare)]
  split
  · rename_i here
    rw [here, h.bound_eq_nil bare plain]
    simp
  · rw [List.mem_filter, decide_eq_true_iff]

theorem nodeOf?_remove_iff (consistent : w.index.Consistent) (inside : id < w.store.nodes.size)
    (bare : (w.store.node id).body = .declaration {}) {id' : NodeId} :
    (w.remove id).nodeOf? symbol = some id' ↔ w.nodeOf? symbol = some id' ∧ id' ≠ id := by
  rw [nodeOf?_remove consistent inside bare]
  split
  · rename_i eq
    rw [eq]
    simp only [reduceCtorEq, Option.some.injEq, ne_eq, false_iff, not_and, Decidable.not_not]
    exact Eq.symm
  · rename_i ne
    exact ⟨fun eq => ⟨eq, fun same => ne (same ▸ eq)⟩, And.left⟩

/-- What a scope holds, or that it is a module, does not change when another node is removed. -/
theorem Removable.held {parent : NodeId} (removable : Removable g w.store parent id) (layout : Layout g w.store)
    {id' : NodeId} (ne : id' ≠ id)
    (held : id' ∈ w.store.children scope ∨ (w.store.node scope).isKind trackedKinds = true) :
    id' ∈ (w.remove id).store.children scope ∨ ((w.remove id).store.node scope).isKind trackedKinds = true := by
  refine held.imp (fun child => ?_) fun tracked => ?_
  · rw [removable.children layout]
    split
    · rename_i here
      exact (List.mem_erase_of_ne ne).2 (here ▸ child)
    · exact child
  · rw [(removable.cut layout).node]
    split
    · rename_i here
      exact here ▸ tracked
    · split
      · rename_i here
        exact here ▸ tracked
      · exact tracked

/-- A node that is no scope of others is removed: the symbols bound to it are released. -/
theorem Filed.remove {parent : NodeId} (h : Filed w) (sound : Sound g w) (removable : Removable g w.store parent id)
    (plain : (w.store.node id).isKind trackedKinds = false) : Filed (w.remove id) := by
  have inside := removable.inside sound.layout
  have mem_bound : ∀ {scope symbol id'}, (symbol, id') ∈ (w.remove id).bound scope ↔
      (symbol, id') ∈ w.bound scope ∧ id' ≠ id := h.mem_bound_remove inside removable.bare plain
  have leaves : ∀ {symbol id'}, (w.remove id).nodeOf? symbol = some id' ↔ w.nodeOf? symbol = some id' ∧ id' ≠ id :=
    nodeOf?_remove_iff sound.consistent inside removable.bare
  have index := index_remove_bare inside removable.bare
  refine ⟨fun scope => ?_, fun mem mem' => h.apart (mem_bound.1 mem).1 (mem_bound.1 mem').1, fun {symbol id'} => ?_,
    fun mem => ?_, fun id' => ?_, fun {id' symbol} => ?_⟩
  · rw [bound_remove w id scope (Store.walk_bare inside removable.bare)]
    split
    · exact List.nodup_nil
    · exact (h.nodup scope).sublist (List.filter_sublist.map _)
  · simp only [mem_bound, leaves, exists_and_right, h.pairs]
  · obtain ⟨mem, ne⟩ := mem_bound.1 mem
    exact removable.held sound.layout ne (h.held mem)
  · rw [index, symbolsOf_forget]
    split
    · exact List.nodup_nil
    · exact h.distinct id'
  · rw [index, symbolsOf_forget, leaves]
    split
    · rename_i here
      simp [here]
    · rename_i other
      rw [h.symbols]
      exact ⟨fun eq => ⟨eq, other⟩, And.left⟩

/-- Where something sprouts, nothing is taken from a scope. -/
theorem Store.Sprouts.keeps {s t : Store} {types : List Ty} (grown : s.Sprouts scope types t)
    (container : s.isContainer scope = true) {scope' id' : NodeId}
    (held : id' ∈ s.children scope' ∨ (s.node scope').isKind trackedKinds = true) :
    id' ∈ t.children scope' ∨ (t.node scope').isKind trackedKinds = true := by
  rw [grown.children container]
  by_cases here : scope' = scope
  · rw [if_pos here, here, grown.widened]
    exact held.imp (fun child => List.mem_append_left _ (here ▸ child)) fun tracked => here ▸ tracked
  · rw [if_neg here]
    refine held.imp_right fun tracked => ?_
    by_cases inside : scope' < s.nodes.size
    · rwa [grown.same inside here]
    · rw [Store.node_of_size_le (Nat.le_of_not_lt inside)] at tracked
      cases tracked

theorem symbolsOf_declare (w : Workspace) (scope : NodeId) (symbol : SymbolId) (d : Description) (id : NodeId) :
    (w.declare scope symbol d).2.index.symbolsOf id = (w.index.bind w.store.nodes.size symbol).symbolsOf id := by
  have quiet := quiet_reportForeign w (w.store.symbol symbol)
  rw [declare_snd, symbolsOf_populate, index_create, quiet.store, quiet.index]
  rfl

theorem Filed.declare (h : Filed w) (sound : Sound g w) (site : Site g w scope) (unbound : w.nodeOf? symbol = none)
    (d : Description) : Filed (w.declare scope symbol d).2 := by
  have made := declared_declare w site.inside symbol d
  have quiet := quiet_reportForeign w (w.store.symbol symbol)
  generalize created : ((w.reportForeign (w.store.symbol symbol)).create scope (w.store.symbol symbol).kind
    (w.store.symbol symbol).name (some symbol)).2 = w₁
  have eq : (w.declare scope symbol d).2 = w₁.populate w.store.nodes.size d := created ▸ declare_snd w scope symbol d
  have bindings : (w.declare scope symbol d).2.bindings = w₁.bindings := by
    rw [eq]
    have confined := confined_populate w₁ w.store.nodes.size d
    exact (congrArg Workspace.bindings confined).trans rfl
  have symbolsOf := symbolsOf_declare w scope symbol d
  refine h.bind scope w.store.nodes.size unbound (fun scope' => ?_) (made.nodeOf? sound.consistent)
    (fun id' => symbolsOf id' ▸ nodup_symbolsOf_bind h.distinct _ symbol id')
    (fun {id' symbol'} => symbolsOf id' ▸ Index.mem_symbolsOf_bind) (made.sprouts.keeps site.container) (Or.inl ?_)
  · have bound : (w.declare scope symbol d).2.bound scope' = w₁.bound scope' := by
      unfold bound
      rw [bindings]
    rw [bound, ← created]
    refine (bound_register _ scope _ symbol scope').trans ?_
    unfold Workspace.bound
    show ite _ (((w.reportForeign _).bindings.find? _).getD [] ++ [(symbol, (w.reportForeign _).store.nodes.size)])
      (((w.reportForeign _).bindings.find? _).getD []) = _
    rw [quiet.bindings, quiet.store]
  · rw [made.sprouts.children site.container, if_pos rfl]
    exact List.mem_append_right _ (List.mem_singleton_self _)

theorem Edit.filed (edit : Edit g extras w made w') (sound : Sound g w) (h : Filed w) : Filed w' := by
  cases edit with
  | noted alike =>
    refine h.congr (fun scope => ?_) alike.nodeOf? (fun id => by rw [alike.index]) fun held => alike.store ▸ held
    unfold Workspace.bound
    rw [alike.bindings]
  | @created scope kind name site _ =>
    obtain ⟨grown, _⟩ := sound.create site.proper site.container site.inside kind name
    refine h.congr (fun _ => rfl) (fun symbol => ?_) (fun id => ?_) (grown.keeps site.container)
    · exact (nodeOf?_create sound.consistent symbol).trans (if_neg (Option.some_ne_none _))
    · rw [index_create]
      rfl
  | @declared scope symbol d site described unbound place => exact h.declare sound site unbound d
  | @bound scope id symbol tracked named unbound above way declaration =>
    have index := index_register w scope id symbol
    have node := node_register w scope id (some symbol)
    refine h.bind scope id unbound (bound_register w scope id symbol) (fun symbol' => ?_)
      (fun id' => index ▸ nodup_symbolsOf_bind h.distinct id symbol id')
      (fun {id' symbol'} => index ▸ Index.mem_symbolsOf_bind) (fun {scope' id'} held => ?_)
      (Or.inr ((node scope).symm ▸ tracked))
    · simpa only [Option.some.injEq] using nodeOf?_register sound.consistent scope id (some symbol) symbol'
    · rw [Store.children, node]
      exact held

/-- Operations keep bindings and indexes in order. -/
theorem Run.filed (run : Run g extras u made w) (sound : Sound g u) (h : Filed u) : Filed w := by
  induction run with
  | start => exact h
  | edit before edit ih => exact edit.filed (before.sound sound) ih
  | removed before removable _ plain ih => exact ih.remove (before.sound sound) removable plain

/-- Before anything was bound, there is nothing to say. -/
theorem Document.Origin.filed (h : Document.Origin g w) : Filed w := by
  have bound : ∀ scope, w.bound scope = [] := fun scope => by
    unfold Workspace.bound
    rw [h.bindings]
    rfl
  have none : ∀ {scope pair}, pair ∉ w.bound scope := fun {scope _} mem => by
    rw [bound] at mem
    cases mem
  refine ⟨fun scope => bound scope ▸ List.nodup_nil, fun mem => absurd mem none, fun {symbol id} => ?_,
    fun mem => absurd mem none, fun id => h.symbolsOf id ▸ List.nodup_nil, fun {id symbol} => ?_⟩
  · rw [h.unbound]
    exact ⟨fun ⟨_, mem⟩ => absurd mem none, nofun⟩
  · rw [h.symbolsOf, h.unbound]
    exact ⟨nofun, nofun⟩

end DocTree
