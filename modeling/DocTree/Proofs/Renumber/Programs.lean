import DocTree.Proofs.Document.Entries
import DocTree.Proofs.Document.Load
import DocTree.Proofs.Renumber.Contents

/-!
# Programs in another order

The order of programs and of their symbols decides on numbers, and on nothing else.

* `Regrouped programs programs'` : the programs list the same symbols, in another order;
* `Reorders ρ E E'` : `ρ` moves what entries add to where it is when they come in another order;
* `mirror_filled` : filled in another order, a workspace says the same under other numbers;
* `loadPrograms_mirror` : what is loaded from programs in another order is the same, under other numbers.
-/

namespace DocTree.Document

open Workspace

/-- The same symbols in another order, programs and all. -/
structure Regrouped (programs programs' : List (String × Value)) : Prop where
  distinct : Distinct programs
  distinct' : Distinct programs'
  names : (programs.map Prod.fst).Perm (programs'.map Prod.fst)
  items : (items programs).Perm (items programs')

/-! ## New numbers -/

/-- What entries add is moved to where it is when they come in another order: first the declared symbols, then the
symbols of members. The project is the first node. -/
structure Reorders (ρ : Renumbering) (E E' : List Entry) : Prop where
  perm : E.Perm E'
  node : Moves ρ.node (fun e : Entry => e.nodes.length) 1 E E'
  symbol : ∃ σ τ, Moves σ (fun _ => 1) 0 E E' ∧ Moves τ (fun e : Entry => e.symbols.length) E.length E E' ∧
    ρ.symbol = σ.trans τ

variable {ρ : Renumbering} {E E' : List Entry} {programs programs' : List (String × Value)} {X : SymbolId}

theorem exists_reorders (perm : E.Perm E') : ∃ ρ, Reorders ρ E E' := by
  obtain ⟨node, nodes⟩ := exists_moves (fun e : Entry => e.nodes.length) perm 1
  obtain ⟨σ, declared⟩ := exists_moves (fun _ : Entry => 1) perm 0
  obtain ⟨τ, members⟩ := exists_moves (fun e : Entry => e.symbols.length) perm E.length
  exact ⟨⟨node, σ.trans τ⟩, perm, nodes, σ, τ, declared, members, rfl⟩

theorem sum_ones (E : List Entry) : 0 + (E.map fun _ => 1).sum = E.length := by simp

/-- Entries in the order in which their symbols are numbered. -/
structure Listing (programs : List (String × Value)) (E : List Entry) : Prop where
  tasks : E.map Entry.task = tasks 0 programs
  distinct : Distinct programs

namespace Listing

theorem items (h : Listing programs E) : E.map (·.task.item) = items programs := by
  rw [← map_fst_starts (fun _ => 1) 0 (Document.items programs)]
  show _ = (numbered 0 (Document.items programs)).map Prod.fst
  rw [← map_tasks, ← h.tasks, List.map_map, List.map_map]
  rfl

theorem numbered (h : Listing programs E) :
    numbered 0 (Document.items programs) = E.map fun e => (e.task.item, e.task.id) := by
  rw [← map_tasks, ← h.tasks, List.map_map]
  rfl

theorem starts (h : Listing programs E) : starts (fun _ => 1) 0 E = E.map fun e => (e, e.task.id) := by
  refine starts_eq_map ?_
  have numbers := congrArg (List.map Prod.snd) h.numbered
  rw [Document.numbered, ← h.items, starts_map, List.map_map, List.map_map] at numbers
  exact numbers

theorem ids (h : Listing programs E) : E.map (·.task.id) = List.range' 0 E.length := by
  rw [← map_snd_starts_one, h.starts, List.map_map]
  rfl

theorem nodup (h : Listing programs E) : (E.map (·.task.id)).Nodup := h.ids ▸ List.nodup_range'

theorem lt (h : Listing programs E) {e : Entry} (mem : e ∈ E) : e.task.id < E.length := by
  have inside : e.task.id ∈ E.map (·.task.id) := List.mem_map_of_mem mem
  rw [h.ids] at inside
  simpa using inside

theorem ext (h : Listing programs E) {e f : Entry} (mem : e ∈ E) (mem' : f ∈ E) (same : e.task.id = f.task.id) : e = f :=
  List.inj_on_of_nodup_map h.nodup mem mem' same

theorem mem_numbered (h : Listing programs E) {i : Item} :
    (i, X) ∈ Document.numbered 0 (Document.items programs) ↔ ∃ e ∈ E, e.task.item = i ∧ e.task.id = X := by
  rw [h.numbered, List.mem_map]
  simp only [Prod.mk.injEq]

theorem knows (h : Listing programs E) {e : Entry} (mem : e ∈ E) :
    Knows 0 programs e.task.item.program e.task.program :=
  knows_of_mem_tasks h.distinct (h.tasks ▸ List.mem_map_of_mem mem)

end Listing

namespace Reorders

variable {e : Entry}

theorem symbol_of_ge (h : Reorders ρ E E') : ∃ τ, Moves τ (fun e : Entry => e.symbols.length) E.length E E' ∧
    ∀ X, E.length ≤ X → ρ.symbol X = τ X := by
  obtain ⟨σ, τ, declared, members, eq⟩ := h.symbol
  refine ⟨τ, members, fun X ge => ?_⟩
  rw [eq, Equiv.trans_apply, declared.outside (Or.inr (by rwa [sum_ones]))]

theorem symbol_of_lt (h : Reorders ρ E E') : ∃ σ, Moves σ (fun _ => 1) 0 E E' ∧ ∀ X, X < E.length → ρ.symbol X = σ X := by
  obtain ⟨σ, τ, declared, members, eq⟩ := h.symbol
  refine ⟨σ, declared, fun X lt => ?_⟩
  have inside : σ X < E.length := by
    by_contra far
    have stays : σ (σ X) = σ X := declared.outside (Or.inr (by rw [sum_ones]; omega))
    have same := σ.injective stays
    omega
  rw [eq, Equiv.trans_apply, members.outside (Or.inl inside)]

/-- A declared symbol moves to where its entry comes. -/
theorem declared (h : Reorders ρ E E') (listing : Listing programs E) (mem : e ∈ E) :
    (e, ρ.symbol e.task.id) ∈ starts (fun _ => 1) 0 E' := by
  obtain ⟨σ, moves, eq⟩ := h.symbol_of_lt
  have lt := listing.lt mem
  obtain ⟨f, o, o', j, mem', there, here, from', toward⟩ := moves.exists_block (Nat.zero_le e.task.id) (by rwa [sum_ones])
  have none : j = 0 := Nat.lt_one_iff.1 here
  rw [listing.starts] at mem'
  obtain ⟨g, inside, same⟩ := List.mem_map.1 mem'
  cases same
  have same : e = f := listing.ext mem inside (by rw [from', none, Nat.add_zero])
  rw [eq _ lt, toward, none, Nat.add_zero, same]
  exact there

theorem of_declared (h : Reorders ρ E E') (listing : Listing programs E) (there : (e, X) ∈ starts (fun _ => 1) 0 E') :
    ρ.symbol e.task.id = X := by
  have mem := h.perm.mem_iff.2 (mem_of_mem_starts there)
  obtain ⟨σ, moves, eq⟩ := h.symbol_of_lt
  obtain ⟨o, here, shift⟩ := moves.moved there
  rw [listing.starts] at here
  obtain ⟨g, _, same⟩ := List.mem_map.1 here
  cases same
  rw [eq _ (listing.lt mem)]
  exact shift 0 Nat.zero_lt_one

theorem numbered_iff (h : Reorders ρ E E') (listing : Listing programs E)
    (items' : E'.map (·.task.item) = items programs') {i : Item} :
    (i, ρ.symbol X) ∈ numbered 0 (items programs') ↔ (i, X) ∈ numbered 0 (items programs) := by
  rw [listing.mem_numbered, ← items', numbered, starts_map, List.mem_map]
  constructor
  · rintro ⟨⟨e, Y⟩, there, same⟩
    cases same
    exact ⟨e, h.perm.mem_iff.2 (mem_of_mem_starts there), rfl, ρ.symbol.injective (h.of_declared listing there)⟩
  · rintro ⟨e, mem, rfl, rfl⟩
    exact ⟨(e, ρ.symbol e.task.id), h.declared listing mem, rfl⟩

end Reorders

/-! ## Programs -/

/-- Programs whose names stand for the same symbols mirror each other. -/
theorem Knows.mirror {name : String} {p q : Program} (h : Knows 0 programs name p) (h' : Knows 0 programs' name q)
    (same : ∀ i X, (i, ρ.symbol X) ∈ numbered 0 (items programs') ↔ (i, X) ∈ numbered 0 (items programs)) :
    p.Mirror ρ q := by
  refine ⟨h'.named.trans h.named.symm, fun key => Option.ext fun Y => ?_⟩
  rw [Equiv.refl_apply, Option.map_eq_some_iff, h'.symbols]
  constructor
  · rintro ⟨i, mem, rest⟩
    rw [← ρ.symbol.apply_symm_apply Y, same] at mem
    exact ⟨_, (h.symbols key _).2 ⟨i, mem, rest⟩, ρ.symbol.apply_symm_apply Y⟩
  · rintro ⟨X, found, rfl⟩
    obtain ⟨i, mem, rest⟩ := (h.symbols key X).1 found
    exact ⟨i, (same i X).2 mem, rest⟩

/-- Tables of programs mirror each other. -/
theorem table_mirror (regrouped : Regrouped programs programs')
    (same : ∀ i X, (i, ρ.symbol X) ∈ numbered 0 (items programs') ↔ (i, X) ∈ numbered 0 (items programs))
    (key : Value.Key) : Option.Rel (Program.Mirror ρ) ((tableOf (placed 0 programs) .empty).find? key)
      ((tableOf (placed 0 programs') .empty).find? key) := by
  have named : ∀ {L : List (String × Value)} {name : String}, name ∈ L.map Prod.fst ↔ ∃ b ∈ placed 0 L, b.1.1 = name := by
    intro L name
    rw [← map_placed 0 L, List.mem_map]
  have finds : ∀ {L : List (String × Value)}, Distinct L → ∀ p, (tableOf (placed 0 L) .empty).find? key = some p ↔
      ∃ b ∈ placed 0 L, .text b.1.1 = key ∧ programAt b.1 b.2 = p := fun distinct => find?_tableOf distinct key
  have first := finds regrouped.distinct
  have second := finds regrouped.distinct'
  cases eq : (tableOf (placed 0 programs) .empty).find? key with
  | some p =>
    obtain ⟨b, mem, rfl, rfl⟩ := (first p).1 eq
    obtain ⟨c, mem', name⟩ := named.1 (regrouped.names.mem_iff.1 (named.2 ⟨b, mem, rfl⟩))
    rw [(second _).2 ⟨c, mem', by rw [name], rfl⟩]
    refine .some ((knows_programAt regrouped.distinct mem).mirror ?_ same)
    exact name ▸ knows_programAt regrouped.distinct' mem'
  | none =>
    cases eq' : (tableOf (placed 0 programs') .empty).find? key with
    | none => exact .none
    | some q =>
      obtain ⟨c, mem', rfl, rfl⟩ := (second q).1 eq'
      obtain ⟨b, mem, name⟩ := named.1 (regrouped.names.mem_iff.2 (named.2 ⟨c, mem', rfl⟩))
      have found := (first (programAt b.1 b.2)).2 ⟨b, mem, by rw [name], rfl⟩
      rw [eq] at found
      cases found

/-! ## Workspaces -/

/-- A project was just started: it is all there is. -/
structure Started (w : Workspace) : Prop where
  store : ∃ name, w.store = (Store.empty.addProject name).2
  project : w.project = 0
  programs : w.programs = .empty
  known : w.known = .empty

def declaring (w : Workspace) (programs : List (String × Value)) : Workspace :=
  declaredIn w ((items programs).map Item.symbol) (tableOf (placed 0 programs) .empty)

variable {w : Workspace}

theorem nodes_declaring {name : Value} (store : w.store = (Store.empty.addProject name).2)
    (programs : List (String × Value)) :
    (declaring w programs).store.nodes.toList = [⟨name, .project, none, .project []⟩] := by
  show (w.extended [] _).store.nodes.toList = _
  rw [Workspace.nodes_extended, store]
  rfl

theorem Fresh.started (h : Fresh w) (name : Value) : Started (w.startProject name) :=
  ⟨⟨name, h.store_startProject name⟩, h.project_startProject name, rfl, h.known⟩

namespace Started

theorem symbols_declaring (h : Started w) (programs : List (String × Value)) :
    (declaring w programs).store.symbols.toList = (items programs).map Item.symbol := by
  obtain ⟨name, eq⟩ := h.store
  show (w.extended [] _).store.symbols.toList = _
  rw [Workspace.symbols_extended, eq]
  rfl

theorem size_declaring (h : Started w) (programs : List (String × Value)) :
    (declaring w programs).store.symbols.size = (items programs).length := by
  rw [← Array.length_toList, h.symbols_declaring, List.length_map]

theorem symbol_declaring (h : Started w) {i : Item} (mem : (i, X) ∈ numbered 0 (items programs)) :
    (declaring w programs).store.symbol X = i.symbol := by
  have found : (([] : List Symbol) ++ (items programs).flatMap fun i => [i.symbol])[X + 0]? = [i.symbol][0]? :=
    getElem?_of_mem_starts mem Nat.zero_lt_one
  rw [Nat.add_zero, List.nil_append, ← List.map_eq_flatMap] at found
  rw [Store.symbol, ← Array.getElem?_toList, h.symbols_declaring, found]
  rfl

theorem loadPrograms_eq (h : Started w) (declares : ∀ p ∈ programs, Declares p.2) (source : Value) :
    loadPrograms source (.object programs) w = describeTasks 0 (tasks 0 programs) (declaring w programs) := by
  have none : w.store.symbols.size = 0 := by
    obtain ⟨name, store⟩ := h.store
    rw [store]
    rfl
  have declared := declarePrograms_eq declares w
  rw [none, h.programs] at declared
  show (declarePrograms programs >>= fun ps => get >>= fun v => describePrograms v.project ps) w = _
  rw [bind_of_ok declared]
  show describePrograms w.project _ _ = _
  rw [h.project, describePrograms_eq]
  rfl

theorem entries_of_loadPrograms (h : Started w) (distinct : Distinct programs) {source : Value} {w' : Workspace}
    (eq : loadPrograms source (.object programs) w = .ok () w') :
    ∃ E, Listing programs E ∧ Laid (declaring w programs) E ∧ (∀ e ∈ E, e.Made 0) ∧
      w' = filled (declaring w programs) E := by
  have declares : ∀ p ∈ programs, Declares p.2 := by
    obtain ⟨ps, w₁, declared, _⟩ := bind_ok eq
    exact declares_of_declarePrograms declared
  rw [h.loadPrograms_eq declares] at eq
  obtain ⟨E, tasks, laid, made, rfl⟩ := entries_of_describeTasks eq
  exact ⟨E, ⟨tasks, distinct⟩, laid, made, rfl⟩

end Started

namespace Reorders

theorem map_ids (h : Reorders ρ E E') (listing : Listing programs E) :
    (E'.map (Entry.renumber ρ)).map (·.task.id) = List.range' 0 E'.length := by
  have numbers : (starts (fun _ => 1) 0 E').map Prod.snd =
      (starts (fun _ => 1) 0 E').map fun p => ρ.symbol p.1.task.id :=
    List.map_congr_left fun p mem => (h.of_declared listing mem).symm
  rw [← map_snd_starts_one, numbers, List.map_map]
  conv_lhs => rw [← map_fst_starts (fun _ => 1) 0 E']
  rw [List.map_map]
  rfl

variable {base base' : Workspace}

theorem nodes_mirror (h : Reorders ρ E E') {name : Value}
    (nodes : base.store.nodes.toList = [⟨name, .project, none, .project []⟩])
    (nodes' : base'.store.nodes.toList = [⟨name, .project, none, .project []⟩]) (id : NodeId) :
    (filled base' (E'.map (Entry.renumber ρ))).store.node (ρ.node id) = ((filled base E).store.node id).renumber ρ := by
  rw [node_eq_toList, node_eq_toList, nodes_filled, nodes_filled, nodes, nodes', List.flatMap_map]
  by_cases first : id < 1
  · rw [h.node.outside (Or.inl first), List.getElem?_append_left first, List.getElem?_append_left first,
      Nat.lt_one_iff.1 first]
    rfl
  · have moved : ([⟨name, .project, none, .project []⟩] ++ E'.flatMap fun e => e.nodes.map (Node.renumber ρ))[ρ.node id]? =
        (([⟨name, .project, none, .project []⟩] ++ E.flatMap Entry.nodes)[id]?).map (Node.renumber ρ) :=
      Moves.getElem? (f := Entry.nodes) h.node (Node.renumber ρ) rfl (Nat.le_of_not_lt first)
    rw [show (fun e : Entry => (e.renumber ρ).nodes) = fun e => e.nodes.map (Node.renumber ρ) from rfl, moved]
    cases ([⟨name, .project, none, .project []⟩] ++ E.flatMap Entry.nodes)[id]? <;> rfl

/-- The symbols are the same, under other numbers. -/
theorem symbols_mirror (h : Reorders ρ E E') (listing : Listing programs E)
    (items' : E'.map (·.task.item) = items programs') (started : Started w) (X : SymbolId) :
    (filled (declaring w programs') (E'.map (Entry.renumber ρ))).store.symbol (ρ.symbol X) =
      ((filled (declaring w programs) E).store.symbol X).renumber ρ := by
  have length : (items programs).length = E.length := by rw [← listing.items, List.length_map]
  have length' : (items programs').length = E.length := by rw [← items', List.length_map, h.perm.length_eq]
  have size := (started.size_declaring programs).trans length
  have size' := (started.size_declaring programs').trans length'
  have inside : ∀ e ∈ E, e.task.id < (declaring w programs).store.symbols.size := fun e mem => size ▸ listing.lt mem
  have inside' : ∀ e ∈ E'.map (Entry.renumber ρ), e.task.id < (declaring w programs').store.symbols.size := by
    intro e mem
    have among : e.task.id ∈ (E'.map (Entry.renumber ρ)).map (·.task.id) := List.mem_map_of_mem mem
    rw [h.map_ids listing, ← h.perm.length_eq, ← size'] at among
    simpa using among
  by_cases declared : X < E.length
  · obtain ⟨e, mem, rfl⟩ : ∃ e ∈ E, e.task.id = X :=
      List.mem_map.1 (listing.ids ▸ List.mem_range'_1.2 ⟨Nat.zero_le X, by rwa [Nat.zero_add]⟩)
    have here : (e.task.item, e.task.id) ∈ numbered 0 (items programs) := listing.mem_numbered.2 ⟨e, mem, rfl, rfl⟩
    have there := (h.numbered_iff listing items').2 here
    have symbol := started.symbol_declaring here
    have symbol' := started.symbol_declaring there
    have mem' : e.renumber ρ ∈ E'.map (Entry.renumber ρ) := List.mem_map_of_mem (h.perm.mem_iff.1 mem)
    have described := symbol_filled_of_mem mem listing.nodup inside (by rw [symbol]; rfl)
    have described' := symbol_filled_of_mem mem' (h.map_ids listing ▸ List.nodup_range') inside'
      (show ((declaring w programs').store.symbol (ρ.symbol e.task.id)).description = none by rw [symbol']; rfl)
    rw [show ρ.symbol e.task.id = (e.renumber ρ).task.id from rfl, described', described, symbol]
    rw [show (declaring w programs').store.symbol (e.renumber ρ).task.id = e.task.item.symbol from symbol']
    rfl
  · have ge := Nat.le_of_not_lt declared
    obtain ⟨τ, moves, eq⟩ := h.symbol_of_ge
    have far : E.length ≤ τ X := by
      by_contra near
      have stays : τ (τ X) = τ X := moves.outside (Or.inl (Nat.lt_of_not_le near))
      exact near (by rwa [τ.injective stays])
    have before : (declaring w programs).store.symbols.toList.length = E.length := Array.length_toList.trans size
    have before' : (declaring w programs').store.symbols.toList.length = E.length := Array.length_toList.trans size'
    have moved := Moves.getElem? (f := Entry.symbols) (before ▸ moves) (Symbol.renumber ρ) (before'.trans before.symm)
      (before.symm ▸ ge)
    rw [symbol_filled_of_ge inside (size ▸ ge), eq X ge, symbol_filled_of_ge inside' (size' ▸ far), List.flatMap_map,
      show (fun e : Entry => (e.renumber ρ).symbols) = fun e => e.symbols.map (Symbol.renumber ρ) from rfl, moved]
    cases ((declaring w programs).store.symbols.toList ++ E.flatMap Entry.symbols)[X]? <;> rfl

theorem index_addProject (name : Value) (project : NodeId) :
    (Store.empty.addProject name).2.index project = if project = 0 then .ofProject 0 else default := by
  show ((OrdMap.empty.insert 0 (Index.ofProject 0)).find? project).getD default = _
  rw [OrdMap.find?_insert]
  split <;> rfl

/-- Filled in another order, a workspace says the same under other numbers. -/
theorem mirror_filled (h : Reorders ρ E E') (regrouped : Regrouped programs programs') (listing : Listing programs E)
    (items' : E'.map (·.task.item) = items programs') (started : Started w) :
    (filled (declaring w programs) E).Mirror ρ (filled (declaring w programs') (E'.map (Entry.renumber ρ))) := by
  have root : ρ.node 0 = 0 := h.node.outside (Or.inl Nat.zero_lt_one)
  obtain ⟨name, store⟩ := started.store
  have nodes := nodes_declaring store
  have size : (filled (declaring w programs) E).store.nodes.size = 1 + (E.map fun e => e.nodes.length).sum := by
    rw [← Array.length_toList, nodes_filled, nodes, sum_map_length, List.length_append]
    rfl
  have size' : (filled (declaring w programs') (E'.map (Entry.renumber ρ))).store.nodes.size =
      1 + (E.map fun e => e.nodes.length).sum := by
    rw [← Array.length_toList, nodes_filled, nodes, List.flatMap_map, List.length_append, ← h.node.sum_eq, sum_map_length]
    simp [Entry.renumber, List.length_flatMap]
  have same := h.nodes_mirror (nodes programs) (nodes programs')
  have symbols := h.symbols_mirror listing items' started
  have count : (filled (declaring w programs') (E'.map (Entry.renumber ρ))).store.symbols.size =
      (filled (declaring w programs) E).store.symbols.size := by
    have total := ((h.perm.map fun e : Entry => e.symbols.length).sum_eq).symm
    rw [size_symbols_filled, size_symbols_filled, started.size_declaring, started.size_declaring,
      ← regrouped.items.length_eq, List.flatMap_map, ← sum_map_length, ← sum_map_length, ← total]
    simp only [Entry.renumber, List.length_map]
  rw [filled_eq (declaring w programs) E, filled_eq (declaring w programs') (E'.map (Entry.renumber ρ))]
  refine { store := ⟨?_, ?_, size'.trans size.symm, count, fun {id} free => ?_, same, symbols, fun project => ?_⟩,
           project := rfl, root := ?_, active := rfl, settings := rfl, listeners := rfl, known := ?_,
           programs := ?_, programCount := ?_ }
  · exact congrArg Store.strays store
  · exact congrArg Store.strays store
  · exact h.node.outside (Or.inr (size ▸ free))
  · show (w.store.index project).Mirror ρ (w.store.index (ρ.node project))
    rw [store, index_addProject, index_addProject]
    by_cases first : project = 0
    · rw [first, root, if_pos rfl]
      have same : (Index.ofProject 0).Mirror ρ (Index.ofProject (ρ.node 0)) := Index.mirror_ofProject 0
      rwa [root] at same
    · rw [if_neg first, if_neg fun same => first (ρ.node.injective (same.trans root.symm))]
      exact ⟨OrdMap.mirror_empty, OrdMap.mirror_empty, OrdMap.mirror_empty⟩
  · exact (congrArg ρ.node started.project).trans (root.trans started.project.symm)
  · show w.known.Mirror ρ.node id w.known
    rw [started.known]
    exact OrdMap.mirror_empty
  · exact table_mirror regrouped fun i X => h.numbered_iff listing items'
  · show (tableOf (placed 0 programs') .empty).size = (tableOf (placed 0 programs) .empty).size
    rw [size_tableOf regrouped.distinct', size_tableOf regrouped.distinct]
    simpa using regrouped.names.length_eq.symm

end Reorders

/-! ## Loading -/

theorem exists_order (regrouped : Regrouped programs programs') (listing : Listing programs E) :
    ∃ E', E.Perm E' ∧ E'.map (·.task.item) = items programs' := by
  have among : Relation.Comp (· = List.map (fun e : Entry => e.task.item) ·) List.Perm (items programs') E := by
    rw [List.eq_map_comp_perm]
    show (Document.items programs').Perm (E.map (·.task.item))
    rw [listing.items]
    exact regrouped.items.symm
  obtain ⟨E', eq, perm⟩ := among
  exact ⟨E', perm.symm, eq.symm⟩

/-- The tasks of the other order fit the entries of the first one. -/
theorem Reorders.tasks (h : Reorders ρ E E') (regrouped : Regrouped programs programs') (listing : Listing programs E)
    (items' : E'.map (·.task.item) = items programs') (root : ρ.node 0 = 0) :
    List.Forall₂ (fun e t => e.task.Renumbered ρ 0 t) E' (tasks 0 programs') := by
  have pairs : (starts (fun _ => 1) 0 E').map (fun p => (p.1.task.item, p.2)) =
      (Document.tasks 0 programs').map fun t => (t.item, t.id) := by
    rw [map_tasks, ← items', numbered, starts_map]
  have fits : List.Forall₂ (fun p t => (p.1.task.item, p.2) = (t.item, t.id)) (starts (fun _ => 1) 0 E')
      (Document.tasks 0 programs') :=
    List.forall₂_map_left_iff.1 (List.forall₂_map_right_iff.1 (List.forall₂_eq_eq_eq ▸ pairs))
  have paired : List.Forall₂ (fun p t => p.1.task.Renumbered ρ 0 t) (starts (fun _ => 1) 0 E')
      (Document.tasks 0 programs') := by
    refine List.forall₂_iff_zip.2 ⟨fits.length_eq, fun {p t} mem => ?_⟩
    obtain ⟨item, id⟩ := Prod.mk.inj (List.forall₂_zip fits mem)
    obtain ⟨there, task⟩ := List.of_mem_zip mem
    have known := listing.knows (h.perm.mem_iff.2 (mem_of_mem_starts there))
    have known' := knows_of_mem_tasks regrouped.distinct' task
    rw [← item] at known'
    have mirror := known.mirror known' fun i X => h.numbered_iff listing items'
    exact ⟨item.symm, id.symm.trans (h.of_declared listing there).symm, root.symm, mirror.name, mirror.symbols, rfl⟩
  rw [← map_fst_starts (fun _ => 1) 0 E']
  exact List.forall₂_map_left_iff.2 paired

/-- What is loaded from programs in another order is the same, under other numbers. -/
theorem loadPrograms_mirror (regrouped : Regrouped programs programs')
    (transfers : (∀ p ∈ programs, Declares p.2) → ∀ p ∈ programs', Declares p.2) (started : Started w)
    {source source' : Value} {w' : Workspace} (eq : loadPrograms source (.object programs) w = .ok () w') :
    ∃ ρ v, loadPrograms source' (.object programs') w = .ok () v ∧ w'.Mirror ρ v := by
  have declares : ∀ p ∈ programs, Declares p.2 := by
    obtain ⟨ps, w₁, declared, _⟩ := bind_ok eq
    exact declares_of_declarePrograms declared
  obtain ⟨E, listing, laid, made, rfl⟩ := started.entries_of_loadPrograms regrouped.distinct eq
  obtain ⟨E', perm, items'⟩ := exists_order regrouped listing
  obtain ⟨ρ, reorders⟩ := exists_reorders perm
  have root : ρ.node 0 = 0 := reorders.node.outside (Or.inl Nat.zero_lt_one)
  refine ⟨ρ, filled (declaring w programs') (E'.map (Entry.renumber ρ)), ?_,
    reorders.mirror_filled regrouped listing items' started⟩
  rw [started.loadPrograms_eq (transfers declares)]
  refine describeTasks_again (fun e mem => made e (perm.mem_iff.2 mem)) (reorders.tasks regrouped listing items' root)
    (fun e o mem i lt => ?_) fun e o mem i lt => ?_
  · have size : ∀ L, (declaring w L).store.nodes.size = 1 := fun L => by
      obtain ⟨name, store⟩ := started.store
      rw [← Array.length_toList, nodes_declaring store]
      rfl
    rw [size] at mem
    obtain ⟨o', here, shift⟩ := reorders.node.moved mem
    rw [← size programs, laid.nodes] at here
    obtain ⟨f, _, same⟩ := List.mem_map.1 here
    cases same
    exact shift i lt
  · obtain ⟨τ, moves, eq⟩ := reorders.symbol_of_ge
    have size : ∀ L, (items L).length = E.length → (declaring w L).store.symbols.size = E.length := fun L length =>
      (started.size_declaring L).trans length
    have length : (items programs).length = E.length := by rw [← listing.items, List.length_map]
    rw [size programs' (regrouped.items.length_eq.symm.trans length)] at mem
    obtain ⟨o', here, shift⟩ := moves.moved mem
    have above := (within_of_mem_starts here).1
    rw [← size programs length, laid.symbols] at here
    obtain ⟨f, _, same⟩ := List.mem_map.1 here
    cases same
    rw [eq _ (Nat.le_add_right_of_le above)]
    exact shift i lt

end DocTree.Document
