import DocTree.Proofs.Document.Declare

/-!
# What describing symbols adds

Describing a declared symbol adds nodes, symbols of members, and the description. How often and where it is done, the
same is added, under other numbers.

* `Entry` : what describing one symbol adds; `filled w E` : a workspace with what describing some symbols adds;
* `entries_of_describeTasks` : all that describing does is to add entries;
* `describeTasks_again` : in another order, the same entries are added, under other numbers;
* `nodes_filled`, `symbol_filled_of_mem`, `symbol_filled_of_ge` : what a filled workspace holds.
-/

namespace DocTree.Document

def scopeOf (project : NodeId) (t : Task) : Scope := ⟨project, t.program, []⟩

/-- What describing a symbol adds, and under which numbers; there is no description if it is opaque. -/
structure Entry where
  task : Task
  firstNode : NodeId
  firstSymbol : SymbolId
  nodes : List Node
  symbols : List Symbol
  description : Option Description

def Entry.fill (w : Workspace) (e : Entry) : Workspace :=
  match e.description with
  | none => w.extended e.nodes e.symbols
  | some d => withDescription (w.extended e.nodes e.symbols) e.task.id d

def filled (w : Workspace) (E : List Entry) : Workspace := E.foldl Entry.fill w

/-- An entry with new numbers. -/
def Entry.renumber (ρ : Renumbering) (e : Entry) : Entry where
  task := { e.task with id := ρ.symbol e.task.id }
  firstNode := ρ.node e.firstNode
  firstSymbol := ρ.symbol e.firstSymbol
  nodes := e.nodes.map (Node.renumber ρ)
  symbols := e.symbols.map (Symbol.renumber ρ)
  description := e.description.map (Description.renumber ρ)

variable {ρ : Renumbering} {project : NodeId} {t t' : Task} {e : Entry} {E : List Entry} {w w' v : Workspace} {X : SymbolId}

/-! ## What a filled workspace holds -/

theorem symbol_extended_of_lt (lt : X < w.store.symbols.size) (ns : List Node) (ss : List Symbol) :
    (w.extended ns ss).store.symbol X = w.store.symbol X := by
  rw [Store.symbol, Store.symbol, ← Array.getElem?_toList, ← Array.getElem?_toList, Workspace.symbols_extended,
    List.getElem?_append_left lt]

theorem nodes_fill (w : Workspace) (e : Entry) : (e.fill w).store.nodes.toList = w.store.nodes.toList ++ e.nodes := by
  unfold Entry.fill
  cases e.description <;> exact Array.toList_appendList

theorem size_nodes_fill (w : Workspace) (e : Entry) :
    (e.fill w).store.nodes.size = w.store.nodes.size + e.nodes.length := by
  rw [← Array.length_toList, nodes_fill, List.length_append, Array.length_toList]

theorem size_symbols_fill (w : Workspace) (e : Entry) :
    (e.fill w).store.symbols.size = w.store.symbols.size + e.symbols.length := by
  unfold Entry.fill
  cases e.description with
  | none => exact w.size_symbols_extended _ _
  | some d => exact Array.size_modify.trans (w.size_symbols_extended _ _)

theorem symbol_fill (inside : e.task.id < w.store.symbols.size) : (e.fill w).store.symbol X =
    if X = e.task.id ∧ e.description.isSome then { w.store.symbol X with description := e.description }
    else ((w.store.symbols.toList ++ e.symbols)[X]?).getD default := by
  have extended : (w.extended e.nodes e.symbols).store.symbol X =
      ((w.store.symbols.toList ++ e.symbols)[X]?).getD default := by
    rw [Store.symbol, ← Array.getElem?_toList, Workspace.symbols_extended]
  unfold Entry.fill
  cases e.description with
  | none => simpa using extended
  | some d =>
    have within : e.task.id < (w.extended e.nodes e.symbols).store.symbols.size := by
      rw [Workspace.size_symbols_extended]
      exact Nat.lt_add_right _ inside
    simp only [symbol_withDescription _ within, Option.isSome_some, and_true]
    split
    · rename_i here
      rw [here, symbol_extended_of_lt inside]
    · exact extended

theorem symbol_fill_of_lt (lt : X < w.store.symbols.size) (inside : e.task.id < w.store.symbols.size)
    (other : e.task.id ≠ X) : (e.fill w).store.symbol X = w.store.symbol X := by
  rw [symbol_fill inside, if_neg fun here => other here.1.symm, List.getElem?_append_left lt, Array.getElem?_toList]
  rfl

theorem nodes_filled (w : Workspace) (E : List Entry) :
    (filled w E).store.nodes.toList = w.store.nodes.toList ++ E.flatMap Entry.nodes := by
  induction E generalizing w with
  | nil => exact (List.append_nil _).symm
  | cons e E ih =>
    show (filled (e.fill w) E).store.nodes.toList = _
    rw [ih, nodes_fill, List.flatMap_cons, List.append_assoc]

theorem size_symbols_filled (w : Workspace) (E : List Entry) :
    (filled w E).store.symbols.size = w.store.symbols.size + (E.flatMap Entry.symbols).length := by
  induction E generalizing w with
  | nil => rfl
  | cons e E ih =>
    show (filled (e.fill w) E).store.symbols.size = _
    rw [ih, size_symbols_fill, List.flatMap_cons, List.length_append, Nat.add_assoc]

/-- All else is the same. -/
theorem filled_eq (w : Workspace) (E : List Entry) : filled w E =
    { w with store := { w.store with nodes := (filled w E).store.nodes, symbols := (filled w E).store.symbols } } := by
  induction E generalizing w with
  | nil => rfl
  | cons e E ih =>
    show filled (e.fill w) E = _
    rw [ih]
    show _ = ({ w with store :=
      { w.store with nodes := (filled (e.fill w) E).store.nodes, symbols := (filled (e.fill w) E).store.symbols } } :
        Workspace)
    unfold Entry.fill
    cases e.description <;> rfl

theorem symbol_filled_of_lt (lt : X < w.store.symbols.size) (inside : ∀ e ∈ E, e.task.id < w.store.symbols.size)
    (others : ∀ e ∈ E, e.task.id ≠ X) : (filled w E).store.symbol X = w.store.symbol X := by
  induction E generalizing w with
  | nil => rfl
  | cons e E ih =>
    have le : w.store.symbols.size ≤ (e.fill w).store.symbols.size := size_symbols_fill w e ▸ Nat.le_add_right _ _
    show (filled (e.fill w) E).store.symbol X = _
    rw [ih (Nat.lt_of_lt_of_le lt le) (fun e mem => Nat.lt_of_lt_of_le (inside e (List.mem_cons_of_mem _ mem)) le)
      fun e mem => others e (List.mem_cons_of_mem _ mem)]
    exact symbol_fill_of_lt lt (inside e List.mem_cons_self) (others e List.mem_cons_self)

/-- A symbol that waits for its description gets it. -/
theorem symbol_filled_of_mem (mem : e ∈ E) (distinct : (E.map (·.task.id)).Nodup)
    (inside : ∀ e ∈ E, e.task.id < w.store.symbols.size) (waits : (w.store.symbol e.task.id).description = none) :
    (filled w E).store.symbol e.task.id = { w.store.symbol e.task.id with description := e.description } := by
  induction E generalizing w with
  | nil => cases mem
  | cons f E ih =>
    obtain ⟨fresh, distinct⟩ := List.nodup_cons.1 distinct
    have le : w.store.symbols.size ≤ (f.fill w).store.symbols.size := size_symbols_fill w f ▸ Nat.le_add_right _ _
    have here := inside f List.mem_cons_self
    have later : ∀ e ∈ E, e.task.id < (f.fill w).store.symbols.size := fun e mem =>
      Nat.lt_of_lt_of_le (inside e (List.mem_cons_of_mem _ mem)) le
    show (filled (f.fill w) E).store.symbol e.task.id = _
    rcases List.mem_cons.1 mem with rfl | mem'
    · rw [symbol_filled_of_lt (Nat.lt_of_lt_of_le here le) later fun f mem same =>
        fresh (List.mem_map.2 ⟨f, mem, same⟩), symbol_fill here]
      cases eq : e.description with
      | none =>
        rw [if_neg (by simp), List.getElem?_append_left here, Array.getElem?_toList, ← waits]
        rfl
      | some d => rw [if_pos ⟨rfl, rfl⟩]
    · have other : f.task.id ≠ e.task.id := fun same => fresh (List.mem_map.2 ⟨e, mem', same.symm⟩)
      have same : (f.fill w).store.symbol e.task.id = w.store.symbol e.task.id :=
        symbol_fill_of_lt (inside e mem) here other
      rw [ih mem' distinct later (same ▸ waits), same]

/-- Symbols of members come behind the declared ones. -/
theorem symbol_filled_of_ge (inside : ∀ e ∈ E, e.task.id < w.store.symbols.size) (ge : w.store.symbols.size ≤ X) :
    (filled w E).store.symbol X = ((w.store.symbols.toList ++ E.flatMap Entry.symbols)[X]?).getD default := by
  induction E generalizing w with
  | nil =>
    rw [List.flatMap_nil, List.append_nil, Array.getElem?_toList]
    rfl
  | cons e E ih =>
    have le : w.store.symbols.size ≤ (e.fill w).store.symbols.size := size_symbols_fill w e ▸ Nat.le_add_right _ _
    have here := inside e List.mem_cons_self
    have later : ∀ f ∈ E, f.task.id < (e.fill w).store.symbols.size := fun f mem =>
      Nat.lt_of_lt_of_le (inside f (List.mem_cons_of_mem _ mem)) le
    have length : (w.store.symbols.toList ++ e.symbols).length = (e.fill w).store.symbols.size := by
      rw [size_symbols_fill, List.length_append, Array.length_toList]
    show (filled (e.fill w) E).store.symbol X = _
    rw [List.flatMap_cons, ← List.append_assoc]
    by_cases new : (e.fill w).store.symbols.size ≤ X
    · rw [ih later new, List.getElem?_append_right (Array.length_toList.symm ▸ new),
        List.getElem?_append_right (length.symm ▸ new),
        length, Array.length_toList]
    · have lt : X < (e.fill w).store.symbols.size := Nat.lt_of_not_le new
      have behind : (w.store.symbols.toList ++ e.symbols ++ E.flatMap Entry.symbols)[X]? =
          (w.store.symbols.toList ++ e.symbols)[X]? := List.getElem?_append_left (length.symm ▸ lt)
      rw [symbol_filled_of_lt lt later fun f mem same =>
          absurd (same ▸ inside f (List.mem_cons_of_mem _ mem)) (Nat.not_lt_of_le ge),
        symbol_fill here, if_neg fun same : X = e.task.id ∧ _ => absurd (same.1 ▸ here) (Nat.not_lt_of_le ge),
        behind]

/-! ## Describing one symbol -/

/-- The same symbol, described in a program whose names stand for the same, renumbered. -/
structure Task.Renumbered (ρ : Renumbering) (project : NodeId) (t t' : Task) : Prop where
  item : t'.item = t.item
  id : t'.id = ρ.symbol t.id
  scope : (scopeOf project t).Renumbered ρ (scopeOf project t')

/-- An entry that describing its symbol makes, wherever this is done. -/
structure Entry.Made (project : NodeId) (e : Entry) : Prop where
  plain : ∀ n ∈ e.nodes, n.Plain
  again : ∀ {ρ : Renumbering} {t : Task} {v : Workspace}, e.task.Renumbered ρ project t →
    (∀ i < e.nodes.length, ρ.node (e.firstNode + i) = v.store.nodes.size + i) →
    (∀ i < e.symbols.length, ρ.symbol (e.firstSymbol + i) = v.store.symbols.size + i) →
    describeSymbols (scopeOf project t) [t.item.pending t.id] v = .ok () ((e.renumber ρ).fill v)
  described : isOpaque e.task.item.spec = false → ∃ w d, w.store.nodes.size = e.firstNode ∧
    w.store.symbols.size = e.firstSymbol ∧ e.description = some d ∧
    describe (scopeOf project e.task) e.task.item.path e.task.item.kind e.task.item.spec w =
      .ok d (w.extended e.nodes e.symbols)
  blank : isOpaque e.task.item.spec = true → e.description = none

theorem describeSymbols_marked {scope : Scope} {p : Pending} (marked : isOpaque p.spec = true) (w : Workspace) :
    describeSymbols scope [p] w = .ok () w := by
  unfold describeSymbols
  simp only [marked, Bool.not_true, Bool.false_eq_true, if_false]
  rfl

theorem describeSymbols_described {scope : Scope} {p : Pending} (unmarked : isOpaque p.spec = false) {d : Description}
    (eq : describe scope p.path p.kind p.spec w = .ok d w') :
    describeSymbols scope [p] w = .ok () (withDescription w' p.symbol d) := by
  unfold describeSymbols
  simp only [unmarked, Bool.not_false, if_true]
  rw [bind_of_ok eq]
  rfl

theorem described_of_describeSymbols {scope : Scope} {p : Pending} (unmarked : isOpaque p.spec = false)
    (eq : describeSymbols scope [p] w = .ok () w') :
    ∃ d w₁, describe scope p.path p.kind p.spec w = .ok d w₁ ∧ w' = withDescription w₁ p.symbol d := by
  unfold describeSymbols at eq
  simp only [unmarked, Bool.not_false, if_true] at eq
  obtain ⟨d, w₁, described, rest⟩ := bind_ok eq
  cases rest
  exact ⟨d, w₁, described, rfl⟩

/-- All that describing a symbol does is to add an entry. -/
theorem entry_of_describeSymbols (eq : describeSymbols (scopeOf project t) [t.item.pending t.id] w = .ok () w') :
    ∃ e : Entry, e.task = t ∧ e.firstNode = w.store.nodes.size ∧ e.firstSymbol = w.store.symbols.size ∧
      e.Made project ∧ w' = e.fill w := by
  cases marked : isOpaque t.item.spec with
  | true =>
    rw [describeSymbols_marked marked] at eq
    cases eq
    refine ⟨⟨t, w.store.nodes.size, w.store.symbols.size, [], [], none⟩, rfl, rfl, rfl,
      ⟨List.forall_mem_nil _, ?_, fun unmarked => absurd (marked.symm.trans unmarked) nofun, fun _ => rfl⟩,
      w.extended_nil.symm⟩
    intro ρ t' v fits _ _
    rw [describeSymbols_marked (show isOpaque t'.item.spec = true from fits.item ▸ marked)]
    exact congrArg _ v.extended_nil.symm
  | false =>
    obtain ⟨d, w₁, described, rfl⟩ := described_of_describeSymbols marked eq
    obtain ⟨ns, ss, rfl, plain, same⟩ := describe_copies _ _ _ _ described
    refine ⟨⟨t, w.store.nodes.size, w.store.symbols.size, ns, ss, some d⟩, rfl, rfl, rfl,
      ⟨plain, ?_, fun _ => ⟨w, d, rfl, rfl, rfl, described⟩, fun silent => absurd (marked.symm.trans silent) nofun⟩, rfl⟩
    intro ρ t' v fits nodes symbols
    have again := same fits.scope ⟨nodes, symbols⟩
    have unmarked : isOpaque (t'.item.pending t'.id).spec = false := fits.item ▸ marked
    have there : describe (scopeOf project t') (t'.item.pending t'.id).path (t'.item.pending t'.id).kind
        (t'.item.pending t'.id).spec v = _ := fits.item ▸ again
    rw [describeSymbols_described unmarked there]
    show EStateM.Result.ok () (withDescription _ t'.id _) = _
    rw [fits.id]
    rfl

/-! ## Describing symbols one by one -/

/-- Entries are laid one behind the other. -/
structure Laid (w : Workspace) (E : List Entry) : Prop where
  nodes : starts (fun e => e.nodes.length) w.store.nodes.size E = E.map fun e => (e, e.firstNode)
  symbols : starts (fun e => e.symbols.length) w.store.symbols.size E = E.map fun e => (e, e.firstSymbol)

/-- All that describing symbols does is to add entries, one behind the other. -/
theorem entries_of_describeTasks {ts : List Task} (eq : describeTasks project ts w = .ok () w') :
    ∃ E : List Entry, E.map Entry.task = ts ∧ Laid w E ∧ (∀ e ∈ E, e.Made project) ∧ w' = filled w E := by
  induction ts generalizing w with
  | nil =>
    cases eq
    exact ⟨[], rfl, ⟨rfl, rfl⟩, List.forall_mem_nil _, rfl⟩
  | cons t ts ih =>
    obtain ⟨⟨⟩, w₁, first, rest⟩ := bind_ok eq
    obtain ⟨e, rfl, node, symbol, made, rfl⟩ := entry_of_describeSymbols first
    obtain ⟨E, rfl, laid, all, rfl⟩ := ih rest
    refine ⟨e :: E, rfl, ⟨?_, ?_⟩, List.forall_mem_cons.2 ⟨made, all⟩, rfl⟩
    · rw [starts, List.map_cons, ← laid.nodes, size_nodes_fill, node]
    · rw [starts, List.map_cons, ← laid.symbols, size_symbols_fill, symbol]

/-- Elsewhere and in another order, the same entries are added, under other numbers. -/
theorem describeTasks_again {ts : List Task} (made : ∀ e ∈ E, e.Made project)
    (fits : List.Forall₂ (fun e t => e.task.Renumbered ρ project t) E ts)
    (nodes : ∀ e o, (e, o) ∈ starts (fun e => e.nodes.length) v.store.nodes.size E →
      ∀ i < e.nodes.length, ρ.node (e.firstNode + i) = o + i)
    (symbols : ∀ e o, (e, o) ∈ starts (fun e => e.symbols.length) v.store.symbols.size E →
      ∀ i < e.symbols.length, ρ.symbol (e.firstSymbol + i) = o + i) :
    describeTasks project ts v = .ok () (filled v (E.map (Entry.renumber ρ))) := by
  induction fits generalizing v with
  | nil => rfl
  | @cons e t E ts here _ ih =>
    have first := (made e List.mem_cons_self).again (v := v) here (nodes e _ List.mem_cons_self)
      (symbols e _ List.mem_cons_self)
    rw [describeTasks, show (⟨project, t.program, []⟩ : Scope) = scopeOf project t from rfl, bind_of_ok first]
    refine ih (fun e mem => made e (List.mem_cons_of_mem _ mem)) (fun e o mem => nodes e o (List.mem_cons_of_mem _ ?_))
      fun e o mem => symbols e o (List.mem_cons_of_mem _ ?_)
    · rwa [size_nodes_fill, Entry.renumber, List.length_map] at mem
    · rwa [size_symbols_fill, Entry.renumber, List.length_map] at mem

end DocTree.Document
