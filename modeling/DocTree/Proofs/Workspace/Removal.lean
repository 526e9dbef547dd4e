import DocTree.Proofs.Workspace.Operations

/-!
# What a removal takes away

* `History w` : `w` comes from a fresh project by symbols being described and any operations being performed,
  in any scope and on any node;
* `Tidy w` : what every operation keeps; `Tidy.grown`, `Tidy.perform`, `History.tidy`;
* `Forgets w r w'` : the index and the bindings have lost all that a walk from `r` visits, all else is as it was;
  `Tidy.forgets` : a removal does that;
* `Exclusive w r` : no type outside wraps what is below `r`; `Tidy.unreached`, `Tidy.visited_limb`,
  `Tidy.visited_wrapped` : what a walk through the project still visits;
* `remove_exact` : all of this together.
-/

namespace DocTree

namespace Workspace

/-! ## Histories -/

/-- Workspaces that come from a fresh project by any operations. -/
inductive History : Workspace → Prop
  | started (w : Workspace) (name : Value) : (w.startProject name).WrapsOwn → History (w.startProject name)
  | parsed {w w' : Workspace} : History w → Parsed w w' → History w'
  | performed {w : Workspace} (op : Operation) : History w → History (w.perform op)

/-- The tree is ordered, symbols wrap nothing in it, and the index is consistent. -/
structure Tidy (w : Workspace) : Prop where
  ordered : w.store.Ordered w.project
  own : w.WrapsOwn
  consistent : w.index.Consistent

variable {w w' : Workspace} {scope r : NodeId} {symbol : SymbolId} {d : Description}

/-! ### Every operation keeps the tree tidy -/

theorem Tidy.beside (h : Tidy w) (project : w'.project = w.project) (nodes : w.store.Keeps w'.store)
    (own : w'.WrapsOwn) (consistent : w'.index.Consistent) : Tidy w' :=
  ⟨project ▸ h.ordered.keeps nodes, own, consistent⟩

theorem Tidy.quiet (h : Tidy w) (q : Quiet w w') : Tidy w' := by
  have nodes : w.store.Keeps w'.store := q.store ▸ .refl _
  exact h.beside q.project nodes (h.own.spared q.kept.symbols q.project (Store.spares_keeps h.ordered nodes))
    (q.index ▸ h.consistent)

/-- A declaration with all that is in it sprouts anywhere, in the tree or beside it. -/
theorem Tidy.grown (h : Tidy w) {types : List Ty} (container : w.store.isContainer scope = true)
    (grown : w.store.Sprouts scope types w'.store) (own : ∀ u ∈ types, ∀ i ∈ u.inlines, w.store.Foreign w.project i)
    (kept : Kept w w') (consistent : w'.index.Consistent) : Tidy w' where
  ordered := kept.project ▸ h.ordered.sprouts grown container own
  own := h.own.mono kept.symbols fun foreign => kept.project ▸ foreign.sprouts h.ordered grown container own
  consistent := consistent

theorem Tidy.create (h : Tidy w) (container : w.store.isContainer scope = true) (kind : Kind) (name : Value)
    (symbol : Option SymbolId) : Tidy (w.create scope kind name symbol).2 :=
  h.grown container (sprouts_create (Store.lt_of_isContainer container) kind name symbol) (List.forall_mem_nil _)
    (kept_create ..) (consistent_create h.consistent)

theorem Tidy.convert (h : Tidy w) (scope : NodeId) (symbol : SymbolId) : Tidy (w.convert scope symbol).2 := by
  refine kept_convert (I := Tidy) (P := fun _ _ => True) (fun h q => ⟨h.quiet q, fun _ => trivial⟩) ?_ h trivial symbol
  intro w scope symbol d h _ container described
  have declared := declared_declare w (Store.lt_of_isContainer container) symbol d
  exact ⟨h.grown container declared.sprouts (h.own described) declared.kept (declared.consistent h.consistent),
    fun _ => trivial, trivial⟩

theorem Tidy.register (h : Tidy w) (scope id : NodeId) (symbol : Option SymbolId) :
    Tidy (w.register scope id symbol) := by
  have nodes : w.store.Keeps (w.register scope id symbol).store :=
    ⟨Nat.le_of_eq (congrArg Array.size (nodes_register ..)).symm, fun _ => node_register ..⟩
  have kept := kept_register w scope id symbol
  exact h.beside kept.project nodes (h.own.spared kept.symbols kept.project (Store.spares_keeps h.ordered nodes))
    (consistent_register h.consistent ..)

theorem Tidy.remove (h : Tidy w) (id : NodeId) : Tidy (w.remove id) where
  ordered := (kept_remove w id).project ▸ h.ordered.loses (loses_remove w id)
  own := h.own.mono (kept_remove w id).symbols fun foreign =>
    (kept_remove w id).project ▸ foreign.loses (loses_remove w id)
  consistent := index_remove w id ▸ h.consistent.foldl_forget _

theorem Tidy.perform (h : Tidy w) (op : Operation) : Tidy (w.perform op) := by
  cases op with
  | create scope kind name symbol =>
    unfold Workspace.perform
    dsimp only
    unfold create?
    by_cases container : w.store.isContainer scope = true
    · rw [if_pos container]
      exact h.create container kind name symbol
    · rw [if_neg container]
      exact h
  | convert scope symbol => exact h.convert scope symbol
  | register scope id symbol => exact h.register scope id symbol
  | activate program => exact h.beside rfl (.refl _) h.own h.consistent
  | remove id => exact h.remove id

theorem History.tidy (history : History w) : Tidy w := by
  induction history with
  | started w name own =>
    have fresh := invariant_startProject w name own
    exact ⟨fresh.rooted.toOrdered, fresh.own, fresh.consistent⟩
  | parsed _ parsed ih => exact ih.beside parsed.project parsed.nodes parsed.own (parsed.index ▸ ih.consistent)
  | performed op _ ih => exact ih.perform op

theorem Session.history (session : Session w) : History w := by
  induction session with
  | started w name own => exact .started w name own
  | parsed _ parsed ih => exact ih.parsed parsed
  | performed op _ _ ih => exact ih.performed op

theorem History.run (history : History w) (ops : List Operation) : History (ops.foldl perform w) := by
  induction ops generalizing w with
  | nil => exact history
  | cons op ops ih => exact ih (history.performed op)

/-! ## What is forgotten -/

/-- The index and the bindings know nothing any more of what a walk from `r` visits. What else they knew they still
know, in the same order, and what else the tree held it still holds, in the same place. -/
structure Forgets (w : Workspace) (r : NodeId) (w' : Workspace) : Prop where
  listed : w'.index.listed.entries = w.index.listed.entries.filter fun e => e.1 ∉ w.store.walk r
  symbols : w'.index.symbols.entries = w.index.symbols.entries.filter fun e => e.1 ∉ w.store.walk r
  bound : w'.index.bound.entries = w.index.bound.entries.filter fun e => e.2 ∉ w.store.walk r
  unresolved : ∀ {symbol id}, w'.nodeOf? symbol = some id → id ∉ w.store.walk r
  bindings : w'.bindings.entries = (w.bindings.entries.filter fun e => e.1 ∉ w.store.walk r).map fun e =>
    (e.1, e.2.filter fun pair => pair.2 ∉ w.store.walk r)
  structural : ∀ {id}, w.Structural id → id ∉ w.store.walk r → w'.Structural id
  held : ∀ {id}, w.Structural id → id ≠ r → w'.store.node id =
    { w.store.node id with body := (w.store.node id).body.mapChildren (·.filter fun c => c ≠ r) }
  same : ∀ {id}, ¬w.Structural id → w'.store.node id = w.store.node id
  visited : ∀ {id}, id ∈ w.store.walk w.project → id ∉ w.store.walk r → id ∈ w'.store.walk w.project

theorem entries_pruneBindings (removed : List NodeId) (bindings : Bindings) :
    (pruneBindings removed bindings).entries = (bindings.entries.filter fun e => e.1 ∉ removed).map fun e =>
      (e.1, e.2.filter fun pair => pair.2 ∉ removed) := by
  show ((removed.foldl OrdMap.erase bindings).entries.map _) = _
  rw [OrdMap.entries_foldl_erase]
  refine List.map_congr_left fun e _ => ?_
  simp

/-- A removal forgets what a walk visits, and nothing else. -/
theorem Tidy.forgets (h : Tidy w) (structural : w.Structural r) (ne : r ≠ w.project) : Forgets w r (w.remove r) := by
  have loses := loses_remove w r
  have bound : (w.remove r).index.bound.entries = w.index.bound.entries.filter fun e => e.2 ∉ w.store.walk r := by
    rw [index_remove]
    exact h.consistent.entries_foldl_forget _
  refine ⟨?_, ?_, bound, fun {symbol id} eq => ?_, entries_pruneBindings _ _, fun {id} way apart => ?_,
    fun way other => h.ordered.node_loses loses way other,
    fun outside => h.ordered.node_loses_outside loses structural ne outside, fun {id} visited apart => ?_⟩
  · rw [index_remove, Index.listed_foldl_forget, OrdMap.entries_foldl_erase]
  · rw [index_remove, Index.symbols_foldl_forget, OrdMap.entries_foldl_erase]
  · have found : (w.remove r).index.bound.find? symbol = some id := (Option.filter_eq_some_iff.1 eq).1
    have mem := (OrdMap.find?_eq_some_iff _ _ _).1 found
    rw [bound] at mem
    exact of_decide_eq_true (List.mem_filter.1 mem).2
  · refine loses.structural_of way fun below => apart ?_
    exact (h.ordered.mem_walk_iff structural way).2 below
  · have either : Relation.ReflTransGen (fun x y => y ∈ w.store.owned x) r id ∨
        Relation.ReflTransGen (fun x y => y ∈ (w.remove r).store.owned x) w.project id := by
      have way := (h.ordered.mem_walk_iff_owned .refl).1 visited
      clear visited apart
      induction way with
      | refl => exact Or.inr .refl
      | @tail y z _ step ih =>
        rcases ih with through | kept
        · exact Or.inl (through.tail step)
        · by_cases here : z = r
          · exact Or.inl (here ▸ .refl)
          · exact Or.inr (kept.tail (loses.mem_owned step here))
    refine ((h.remove r).ordered.mem_walk_iff_owned .refl).2 (either.resolve_left fun through => ?_)
    exact apart ((h.ordered.mem_walk_iff_owned structural).2 through)

/-! ## What is visited no more -/

/-- The types of the structural nodes outside wrap nothing that a walk from `r` visits. -/
def Exclusive (w : Workspace) (r : NodeId) : Prop :=
  ∀ ⦃a i⦄, w.Structural a → a ∉ w.store.walk r → i ∈ w.store.owned a → ¬w.Structural i →
    ∀ x ∈ w.store.walk i, x ∉ w.store.walk r

theorem Tidy.owned_remove (h : Tidy w) {a i : NodeId} (way : w.Structural a) (mem : i ∈ (w.remove r).store.owned a) :
    (w.remove r).store.Lists a i ∨ w.store.Foreign w.project i := by
  have loses := loses_remove w r
  rcases Node.mem_owned_cases mem with child | limb | ⟨u, held, inside⟩
  · exact Or.inl (Or.inl child)
  · exact Or.inl (Or.inr limb)
  · exact Or.inr (h.ordered.foreign way (loses.parts held) inside)

/-- A declaration that is removed is visited no more, nor anything below it, if no type outside wraps it. -/
theorem Tidy.unreached (h : Tidy w) (structural : w.Structural r) (ne : r ≠ w.project)
    (declaration : ∃ b, (w.store.node r).body = .declaration b) (exclusive : w.Exclusive r) {x : NodeId}
    (below : x ∈ w.store.walk r) : x ∉ (w.remove r).store.walk w.project := by
  intro visited
  have loses := loses_remove w r
  obtain ⟨a, above, listed⟩ := Store.Structural.lister structural ne
  have child : r ∈ w.store.children a := by
    refine listed.resolve_right fun limb => ?_
    obtain ⟨b, eq⟩ := declaration
    exact h.ordered.limb above limb b eq
  have cut : w.store.Cut a r (w.remove r).store := by
    refine loses.cut (h.ordered.child above child).1 ?_
    rintro rfl
    exact h.ordered.not_lists_self structural listed
  have left : ∀ {id}, (w.remove r).Structural id → w.Structural id ∧ id ∉ w.store.walk r := by
    intro id way
    obtain ⟨way, apart⟩ := (Store.structural_cut h.ordered cut above listed declaration).1 way
    exact ⟨way, fun mem => apart ((h.ordered.mem_walk_iff structural way).1 mem)⟩
  have either : (w.remove r).Structural x ∨ ∃ a i, (w.remove r).Structural a ∧ i ∈ w.store.owned a ∧
      w.store.Foreign w.project i ∧ Relation.ReflTransGen (fun x y => y ∈ w.store.owned x) i x := by
    have way := Store.owned_of_mem_walkDepth visited
    clear visited below
    induction way with
    | refl => exact Or.inl .refl
    | @tail y z _ step ih =>
      rcases ih with way | ⟨a, i, way, mem, foreign, inner⟩
      · rcases h.owned_remove (left way).1 step with listed | foreign
        · exact Or.inl (Relation.ReflTransGen.tail way listed)
        · exact Or.inr ⟨y, z, way, loses.owned y step, foreign, .refl⟩
      · exact Or.inr ⟨a, i, way, mem, foreign, inner.tail (loses.owned y step)⟩
  rcases either with way | ⟨a, i, way, mem, foreign, inner⟩
  · exact (left way).2 below
  · obtain ⟨way, apart⟩ := left way
    have inside : x ∈ w.store.walk i := Store.mem_walk_of_owned inner (foreign x inner).1
    exact exclusive way apart mem (foreign i .refl).2 x inside below

theorem Tidy.visited_limb (h : Tidy w) (structural : w.Structural r)
    (limb : ∀ b, (w.store.node r).body ≠ .declaration b) : r ∈ (w.remove r).store.walk w.project := by
  have kept : (w.remove r).store.Structural w.project r :=
    h.ordered.structural_loses_limb (loses_remove w r) limb structural
  exact ((h.remove r).ordered.mem_walk_iff .refl kept).2 kept

/-- What a type outside wraps is visited as before. -/
theorem Tidy.visited_wrapped (h : Tidy w) (structural : w.Structural r) {a i x : NodeId} (way : w.Structural a)
    (apart : a ∉ w.store.walk r) (mem : i ∈ w.store.owned a) (outside : ¬w.Structural i)
    (inside : x ∈ w.store.walk i) : x ∈ (w.remove r).store.walk w.project := by
  have loses := loses_remove w r
  have foreign : w.store.Foreign w.project i := by
    refine (h.ordered.owned_cases way mem).resolve_left fun listed => ?_
    exact outside (Relation.ReflTransGen.tail way listed)
  have kept : ∀ {y z}, Relation.ReflTransGen (fun x y => y ∈ w.store.owned x) i z → z ∈ w.store.owned y →
      z ∈ (w.remove r).store.owned y := by
    intro y z inner step
    refine loses.mem_owned step ?_
    rintro rfl
    exact (foreign z inner).2 structural
  have entered : Relation.ReflTransGen (fun x y => y ∈ (w.remove r).store.owned x) i x := by
    have inner := Store.owned_of_mem_walkDepth inside
    clear inside
    induction inner with
    | refl => exact .refl
    | tail inner step ih => exact ih.tail (kept (inner.tail step) step)
  have top : (w.remove r).store.Structural w.project a :=
    loses.structural_of way fun below => apart ((h.ordered.mem_walk_iff structural way).2 below)
  have outer : Relation.ReflTransGen (fun x y => y ∈ (w.remove r).store.owned x) w.project a :=
    Relation.ReflTransGen.mono (fun _ _ => Store.Lists.owned) _ _ top
  exact ((h.remove r).ordered.mem_walk_iff_owned .refl).2 ((outer.tail (kept .refl mem)).trans entered)

/-- A removal forgets the whole subtree, and touches nothing else. Nothing of the subtree is visited any more just
if a declaration was removed, and no type outside wraps anything of it. -/
theorem remove_exact (history : History w) (structural : w.Structural r) (ne : r ≠ w.project) :
    Forgets w r (w.remove r) ∧
      ((∀ x ∈ w.store.walk r, x ∉ (w.remove r).store.walk w.project) ↔
        (∃ b, (w.store.node r).body = .declaration b) ∧ w.Exclusive r) := by
  have tidy := history.tidy
  refine ⟨tidy.forgets structural ne, fun unreached => ⟨?_, ?_⟩, fun ⟨declaration, exclusive⟩ x below => ?_⟩
  · by_contra limb
    have here : r ∈ w.store.walk r := (tidy.ordered.mem_walk_iff structural structural).2 .refl
    exact unreached r here (tidy.visited_limb structural fun b eq => limb ⟨b, eq⟩)
  · intro a i way apart mem outside x inside below
    exact unreached x below (tidy.visited_wrapped structural way apart mem outside inside)
  · exact tidy.unreached structural ne declaration exclusive below

/-- The class in its module. The type parameter of its constructor was removed, and the type parameter of the class is
bound as well. -/
def boundClass : Workspace :=
  [.activate (some (.str "main")), .create 0 .module (.str "shapes") none, .convert 2 0, .remove 6,
    .register 4 7 (some 1), .convert 2 1, .register 5 4 (some 0)].foldl perform besideClass

theorem history_boundClass : History boundClass := session_besideClass.history.run _

theorem structural_boundClass : boundClass.Structural 3 := by
  have shapes : boundClass.store.Lists boundClass.project 2 := by decide +kernel
  have box : boundClass.store.Lists 2 3 := by decide +kernel
  exact .tail (.single shapes) box

theorem remove_exact_boundClass : History boundClass ∧ boundClass.Structural 3 ∧ 3 ≠ boundClass.project ∧
    Forgets boundClass 3 (boundClass.remove 3) ∧ boundClass.Exclusive 3 := by
  have ne : 3 ≠ boundClass.project := by decide +kernel
  obtain ⟨forgets, iff⟩ := remove_exact history_boundClass structural_boundClass ne
  have unreached : ∀ x ∈ boundClass.store.walk 3, x ∉ (boundClass.remove 3).store.walk boundClass.project := by
    decide +kernel
  exact ⟨history_boundClass, structural_boundClass, ne, forgets, (iff.1 unreached).2⟩

/-- The constructor of a class, once removed, is still visited: it is forgotten, but its class keeps it. -/
theorem not_unreached_constructor : History boundClass ∧ boundClass.Structural 5 ∧ 5 ≠ boundClass.project ∧
    (boundClass.remove 5).index.listed.contains 5 = false ∧
    ¬∀ x ∈ boundClass.store.walk 5, x ∉ (boundClass.remove 5).store.walk boundClass.project := by
  have constructor : boundClass.store.Lists 3 5 := by decide +kernel
  exact ⟨history_boundClass, structural_boundClass.tail constructor, by decide +kernel, by decide +kernel,
    by decide +kernel⟩

end Workspace

end DocTree
