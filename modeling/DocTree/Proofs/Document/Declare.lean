import DocTree.Document.Load
import DocTree.Proofs.Document.Symbols
import DocTree.Proofs.Document.Copy
import DocTree.Proofs.Renumber.Blocks

/-!
# The numbers of declared symbols

Before anything is described, the symbols of all programs get numbers, one behind the other.

* `statedKind?` : the kind that is stated for a symbol;
* `Item`, `items programs` : the symbols that programs list, one program after the other;
* `programAt p low` : a program whose symbols are numbered from `low` on; `find?_programAt`;
* `declarePrograms_eq` : declaring numbers all items, and makes a table of programs;
* `Task`, `tasks` : what is left to describe; `describePrograms_eq`.
-/

namespace DocTree

namespace OrdMap

variable {α β γ : Type} [DecidableEq α]

/-- Keys that are written once are listed as they are written. -/
theorem entries_foldl_insert {m : OrdMap α β} (key : γ → α) (value : γ → β) (es : List γ)
    (distinct : (m.keys ++ es.map key).Nodup) :
    (es.foldl (fun m e => m.insert (key e) (value e)) m).entries = m.entries ++ es.map fun e => (key e, value e) := by
  induction es generalizing m with
  | nil => simp
  | cons e es ih =>
    have fresh : key e ∉ m.entries.map Prod.fst := fun mem =>
      (List.nodup_append.1 distinct).2.2 _ mem _ (by simp) rfl
    have written : (m.insert (key e) (value e)).entries = m.entries ++ [(key e, value e)] := by
      unfold insert
      rw [dif_neg fresh]
    have keys : (m.insert (key e) (value e)).keys = m.keys ++ [key e] := by
      unfold OrdMap.keys
      rw [written, List.map_append]
      rfl
    rw [List.foldl_cons, ih (by rw [keys]; simpa using distinct), written]
    simp

theorem find?_foldl_insert {key : γ → α} (value : γ → β) {es : List γ} (distinct : (es.map key).Nodup) (k : α) (b : β) :
    (es.foldl (fun m e => m.insert (key e) (value e)) empty).find? k = some b ↔ ∃ e ∈ es, key e = k ∧ value e = b := by
  rw [find?_eq_some_iff, entries_foldl_insert key value es (by simpa [keys, empty] using distinct)]
  simp [empty]

end OrdMap

namespace Document

variable {w w' : Workspace}

/-! ## Kinds -/

def statedKind? : Value → Option Kind
  | .object fields =>
    match (Value.lookup "kind" fields).getD (.str "variable") with
    | .str label => Kind.ofLabel? label
    | _ => none
  | _ => none

theorem readKind_of_stated {v : Value} {kind : Kind} (stated : statedKind? v = some kind) (path : String) (w : Workspace) :
    readKind path v w = .ok kind w := by
  unfold statedKind? at stated
  unfold readKind
  split at stated
  · split at stated
    · rename_i label eq
      simp only [eq, stated]
      rfl
    · cases stated
  · cases stated

theorem stated_of_readKind {v : Value} {path : String} {kind : Kind} (eq : readKind path v w = .ok kind w') :
    statedKind? v = some kind ∧ w' = w := by
  have meets : Meets (readKind path v) w (fun kind w' => statedKind? v = some kind ∧ w' = w) Whatever := by
    cases v with
    | object fields =>
      unfold readKind statedKind?
      cases here : (Value.lookup "kind" fields).getD (.str "variable") with
      | str label =>
        simp only [here]
        cases stated : Kind.ofLabel? label with
        | some kind => exact meets_pure ⟨rfl, rfl⟩
        | none => exact refuse_meets
      | _ =>
        simp only [here]
        exact meets_throw trivial
    | _ => exact refuse_meets
  exact meets.of_ok eq

/-! ## Items -/

/-- A symbol that a document lists: its program, its name, and what is said about it. -/
structure Item where
  program : String
  name : String
  spec : Value

namespace Item

def kind (i : Item) : Kind := (statedKind? i.spec).getD default

def path (i : Item) : String := "programs." ++ i.program ++ ".symbols." ++ i.name

/-- The symbol as it is declared. -/
def symbol (i : Item) : Symbol := ⟨.str i.name, i.kind, some (.str i.program), none⟩

/-- The symbol under its number, as it waits for its description. -/
def pending (i : Item) (id : SymbolId) : Pending := ⟨id, i.kind, i.path, i.spec⟩

end Item

/-- The symbols that a program lists. -/
def itemsOf (p : String × Value) : List Item := (programSpecs p.2).map fun s => ⟨p.1, s.1, s.2⟩

/-- The symbols that programs list, one program after the other. -/
def items (programs : List (String × Value)) : List Item := programs.flatMap itemsOf

theorem program_of_mem_itemsOf {p : String × Value} {i : Item} (mem : i ∈ itemsOf p) : i.program = p.1 := by
  obtain ⟨s, _, rfl⟩ := List.mem_map.1 mem
  rfl

/-- Items with their numbers, from `low` on. -/
def numbered (low : Nat) (L : List Item) : List (Item × SymbolId) := starts (fun _ => 1) low L

/-- A program with more names, for items numbered from `low` on. -/
def place (program : Program) (low : SymbolId) (L : List Item) : Program :=
  (numbered low L).foldl (fun p e => p.insert (.text e.1.name) e.2) program

def programAt (p : String × Value) (low : SymbolId) : Program := place (.empty (.str p.1)) low (itemsOf p)

theorem place_eq (program : Program) (low : SymbolId) (L : List Item) :
    place program low L =
      ⟨program.name, (numbered low L).foldl (fun m e => m.insert (.text e.1.name) e.2) program.symbols⟩ := by
  unfold place
  generalize numbered low L = es
  induction es generalizing program with
  | nil => rfl
  | cons e es ih => exact ih (program.insert _ _)

theorem name_programAt (p : String × Value) (low : SymbolId) : (programAt p low).name = .str p.1 := by
  unfold programAt
  rw [place_eq]
  rfl

/-- What the names of a program stand for. -/
theorem find?_programAt {p : String × Value} (distinct : ((programSpecs p.2).map Prod.fst).Nodup) (low : SymbolId)
    (key : Value.Key) (X : SymbolId) : (programAt p low).symbols.find? key = some X ↔
      ∃ i, (i, X) ∈ numbered low (itemsOf p) ∧ key = .text i.name := by
  have names : ((numbered low (itemsOf p)).map fun e => Value.Key.text e.1.name).Nodup := by
    have same : (numbered low (itemsOf p)).map (fun e => Value.Key.text e.1.name) =
        ((programSpecs p.2).map Prod.fst).map Value.Key.text := by
      have parts : (numbered low (itemsOf p)).map (fun e => Value.Key.text e.1.name) =
          ((numbered low (itemsOf p)).map Prod.fst).map fun i => Value.Key.text i.name := by
        rw [List.map_map]
        rfl
      rw [parts, numbered, map_fst_starts, itemsOf, List.map_map, List.map_map]
      rfl
    rw [same]
    exact distinct.map fun _ _ eq => by cases eq; rfl
  unfold programAt
  rw [place_eq]
  refine (OrdMap.find?_foldl_insert _ names key X).trans ⟨?_, ?_⟩
  · rintro ⟨⟨i, X⟩, mem, rfl, rfl⟩
    exact ⟨i, mem, rfl⟩
  · rintro ⟨i, mem, rfl⟩
    exact ⟨(i, X), mem, rfl, rfl⟩

/-! ## Declaring -/

/-- What can be said about a program: its symbols are listed, each with a kind. -/
structure Declares (v : Value) : Prop where
  object : ∃ fields, v = .object fields ∧ (Value.lookup "symbols" fields).getD (.object []) = .object (programSpecs v)
  stated : ∀ s ∈ programSpecs v, (statedKind? s.2).isSome

theorem declareSymbols_eq {name : String} (L : List (String × Value)) (stated : ∀ s ∈ L, (statedKind? s.2).isSome)
    {program : Program} (named : program.name = .str name) (w : Workspace) :
    declareSymbols L program w =
      .ok (place program w.store.symbols.size (L.map fun s => ⟨name, s.1, s.2⟩),
          (numbered w.store.symbols.size (L.map fun s => ⟨name, s.1, s.2⟩)).map fun e => e.1.pending e.2)
        (w.extended [] (L.map fun s => Item.symbol ⟨name, s.1, s.2⟩)) := by
  induction L generalizing program w with
  | nil =>
    rw [List.map_nil, List.map_nil, w.extended_nil]
    rfl
  | cons s L ih =>
    obtain ⟨kind, eq⟩ := Option.isSome_iff_exists.1 (stated s List.mem_cons_self)
    have here : Item.kind ⟨name, s.1, s.2⟩ = kind := by
      unfold Item.kind
      rw [eq]
      rfl
    have added : addSymbol ⟨.str s.1, kind, some program.name, none⟩ w = .ok w.store.symbols.size
        (w.extended [] [Item.symbol ⟨name, s.1, s.2⟩]) := by
      rw [named, ← w.extended_addSymbol, Item.symbol, here]
      rfl
    have named' : (program.insert (.text s.1) w.store.symbols.size).name = .str name := named
    have rest := ih (fun s mem => stated s (List.mem_cons_of_mem _ mem)) named'
      (w.extended [] [Item.symbol ⟨name, s.1, s.2⟩])
    unfold declareSymbols
    simp only
    rw [bind_of_ok (readKind_of_stated eq _ w), bind_of_ok added, bind_of_ok rest, Workspace.extended_extended,
      Workspace.size_symbols_extended]
    simp only [List.map_cons, numbered, starts, place, Item.pending, Item.path, here, named, Value.text_str,
      List.length_singleton]
    rfl

theorem stated_of_declareSymbols {L : List (String × Value)} {program : Program} {a : Program × List Pending}
    (eq : declareSymbols L program w = .ok a w') : ∀ s ∈ L, (statedKind? s.2).isSome := by
  induction L generalizing program w a w' with
  | nil => exact List.forall_mem_nil _
  | cons s L ih =>
    unfold declareSymbols at eq
    obtain ⟨kind, w₁, read, eq⟩ := bind_ok eq
    obtain ⟨id, w₂, _, eq⟩ := bind_ok eq
    obtain ⟨declared, w₃, rest, _⟩ := bind_ok eq
    exact List.forall_mem_cons.2 ⟨(stated_of_readKind read).1 ▸ rfl, ih rest⟩

def declaredIn (w : Workspace) (ss : List Symbol) (programs : OrdMap Value.Key Program) : Workspace :=
  { w.extended [] ss with programs := programs }

theorem declaredIn_declaredIn (w : Workspace) (ss ss' : List Symbol) (programs programs' : OrdMap Value.Key Program) :
    declaredIn (declaredIn w ss programs) ss' programs' = declaredIn w (ss ++ ss') programs' := by
  show ({ (w.extended [] ss).extended [] ss' with programs := programs' } : Workspace) = _
  rw [Workspace.extended_extended]
  rfl

def declaredAt (p : String × Value) (low : SymbolId) : DeclaredProgram where
  program := programAt p low
  pending := (numbered low (itemsOf p)).map fun e => e.1.pending e.2

theorem declareProgram_eq {p : String × Value} (declares : Declares p.2) (w : Workspace) :
    declareProgram p.1 p.2 w = .ok (declaredAt p w.store.symbols.size) (declaredIn w ((itemsOf p).map Item.symbol)
      (w.programs.insert (.text p.1) (programAt p w.store.symbols.size))) := by
  obtain ⟨name, v⟩ := p
  obtain ⟨⟨fields, rfl, symbols⟩, stated⟩ := declares
  have named : (Program.empty (.str name)).name = .str name := rfl
  have declared := declareSymbols_eq (programSpecs (.object fields)) stated named w
  unfold declareProgram
  simp only [symbols]
  rw [bind_of_ok declared]
  unfold declaredIn itemsOf
  rw [List.map_map]
  rfl

theorem declares_of_declareProgram {name : String} {v : Value} {p : DeclaredProgram}
    (eq : declareProgram name v w = .ok p w') : Declares v := by
  cases v with
  | object fields =>
    have meets : Meets (declareProgram name (.object fields)) w (fun _ _ => Declares (.object fields)) Whatever := by
      unfold declareProgram
      simp only
      split
      · rename_i symbols here
        have specs : programSpecs (.object fields) = symbols := by
          unfold programSpecs
          simp only [here]
        have stated : Meets (declareSymbols symbols (.empty (.str name))) w
            (fun _ _ => ∀ s ∈ symbols, (statedKind? s.2).isSome) Whatever := by
          unfold Meets
          split
          · rename_i eq
            exact stated_of_declareSymbols eq
          · trivial
        refine meets_bind stated fun declared w₁ stated => ?_
        refine meets_bind (P := fun _ _ => True) (meets_modify trivial) fun _ _ _ => meets_pure ?_
        exact ⟨⟨fields, rfl, specs.symm ▸ here⟩, specs.symm ▸ stated⟩
      · exact refuse_meets
    exact meets.of_ok eq
  | _ => cases eq

/-- Programs with the numbers of their first symbols. -/
def placed (low : SymbolId) (programs : List (String × Value)) : List ((String × Value) × SymbolId) :=
  starts (fun p => (itemsOf p).length) low programs

def tableOf (blocks : List ((String × Value) × SymbolId)) (table : OrdMap Value.Key Program) : OrdMap Value.Key Program :=
  blocks.foldl (fun m b => m.insert (.text b.1.1) (programAt b.1 b.2)) table

/-- Declaring programs numbers all items, and makes a table of the programs. -/
theorem declarePrograms_eq {programs : List (String × Value)} (declares : ∀ p ∈ programs, Declares p.2) (w : Workspace) :
    declarePrograms programs w = .ok ((placed w.store.symbols.size programs).map fun b => declaredAt b.1 b.2)
      (declaredIn w ((items programs).map Item.symbol) (tableOf (placed w.store.symbols.size programs) w.programs)) := by
  induction programs generalizing w with
  | nil =>
    show EStateM.Result.ok [] w = .ok [] ({ w.extended [] [] with programs := w.programs } : Workspace)
    rw [w.extended_nil]
  | cons p programs ih =>
    have first := declareProgram_eq (declares p List.mem_cons_self) w
    have rest := ih (fun q mem => declares q (List.mem_cons_of_mem _ mem)) (declaredIn w ((itemsOf p).map Item.symbol)
      (w.programs.insert (.text p.1) (programAt p w.store.symbols.size)))
    unfold declarePrograms
    rw [bind_of_ok first, bind_of_ok rest, declaredIn_declaredIn]
    have size : (declaredIn w ((itemsOf p).map Item.symbol) (w.programs.insert (.text p.1)
        (programAt p w.store.symbols.size))).store.symbols.size = w.store.symbols.size + (itemsOf p).length := by
      rw [← List.length_map (f := Item.symbol)]
      exact w.size_symbols_extended [] _
    rw [size, ← List.map_append]
    rfl

theorem declares_of_declarePrograms {programs : List (String × Value)} {ps : List DeclaredProgram}
    (eq : declarePrograms programs w = .ok ps w') : ∀ p ∈ programs, Declares p.2 := by
  induction programs generalizing w ps w' with
  | nil => exact List.forall_mem_nil _
  | cons p programs ih =>
    unfold declarePrograms at eq
    obtain ⟨first, w₁, here, eq⟩ := bind_ok eq
    obtain ⟨rest, w₂, later, _⟩ := bind_ok eq
    exact List.forall_mem_cons.2 ⟨declares_of_declareProgram here, ih later⟩

/-! ## What is left to describe -/

/-- A declared symbol under its number, with the program in which its description is read. -/
structure Task where
  item : Item
  id : SymbolId
  program : Program

def tasks (low : SymbolId) (programs : List (String × Value)) : List Task :=
  (placed low programs).flatMap fun b => (numbered b.2 (itemsOf b.1)).map fun e => ⟨e.1, e.2, programAt b.1 b.2⟩

theorem numbered_items (low : SymbolId) (programs : List (String × Value)) :
    numbered low (items programs) = (placed low programs).flatMap fun b => numbered b.2 (itemsOf b.1) := by
  induction programs generalizing low with
  | nil => rfl
  | cons p programs ih =>
    have ones : ((itemsOf p).map fun _ => 1).sum = (itemsOf p).length := by simp
    show starts _ low (itemsOf p ++ items programs) = _
    rw [starts_append, ones]
    exact congrArg _ (ih _)

theorem map_tasks (low : SymbolId) (programs : List (String × Value)) :
    (tasks low programs).map (fun t => (t.item, t.id)) = numbered low (items programs) := by
  rw [numbered_items, tasks, List.map_flatMap]
  simp only [List.map_map, Function.comp_def, Prod.mk.eta, List.map_id']

/-- Programs and their symbols have names of their own. -/
structure Distinct (programs : List (String × Value)) : Prop where
  names : (programs.map Prod.fst).Nodup
  symbols : ∀ p ∈ programs, ((programSpecs p.2).map Prod.fst).Nodup

/-- The program of a given name, once all symbols are numbered from `low` on. -/
structure Knows (low : SymbolId) (programs : List (String × Value)) (name : String) (p : Program) : Prop where
  named : p.name = .str name
  symbols : ∀ key X, p.symbols.find? key = some X ↔
    ∃ i, (i, X) ∈ numbered low (items programs) ∧ i.program = name ∧ key = .text i.name

variable {programs : List (String × Value)} {low : SymbolId} {b : (String × Value) × SymbolId}

theorem map_placed (low : SymbolId) (programs : List (String × Value)) :
    (placed low programs).map (·.1.1) = programs.map Prod.fst := by
  have names := congrArg (List.map Prod.fst) (map_fst_starts (fun p => (itemsOf p).length) low programs)
  rwa [List.map_map] at names

theorem nodup_placed (distinct : Distinct programs) (low : SymbolId) : ((placed low programs).map (·.1.1)).Nodup :=
  map_placed low programs ▸ distinct.names

theorem knows_programAt (distinct : Distinct programs) (mem : b ∈ placed low programs) :
    Knows low programs b.1.1 (programAt b.1 b.2) := by
  refine ⟨name_programAt b.1 b.2, fun key X => ?_⟩
  rw [find?_programAt (distinct.symbols b.1 (mem_of_mem_starts mem)), numbered_items]
  constructor
  · rintro ⟨i, here, rfl⟩
    exact ⟨i, List.mem_flatMap.2 ⟨b, mem, here⟩, program_of_mem_itemsOf (mem_of_mem_starts here), rfl⟩
  · rintro ⟨i, here, program, rfl⟩
    obtain ⟨c, mem', here⟩ := List.mem_flatMap.1 here
    have same : c.1.1 = b.1.1 := (program_of_mem_itemsOf (mem_of_mem_starts here)).symm.trans program
    cases List.inj_on_of_nodup_map (nodup_placed distinct low) mem' mem same
    exact ⟨i, here, rfl⟩

theorem knows_of_mem_tasks (distinct : Distinct programs) {t : Task} (mem : t ∈ tasks low programs) :
    Knows low programs t.item.program t.program := by
  obtain ⟨b, here, mem⟩ := List.mem_flatMap.1 mem
  obtain ⟨e, inside, rfl⟩ := List.mem_map.1 mem
  have same : e.1.program = b.1.1 := program_of_mem_itemsOf (mem_of_mem_starts inside)
  simp only [same]
  exact knows_programAt distinct here

theorem nodup_keys_placed (distinct : Distinct programs) (low : SymbolId) :
    ((placed low programs).map fun b => Value.Key.text b.1.1).Nodup := by
  have same : (placed low programs).map (fun b => Value.Key.text b.1.1) =
      ((placed low programs).map (·.1.1)).map Value.Key.text := by
    rw [List.map_map]
    rfl
  rw [same]
  exact (nodup_placed distinct low).map fun _ _ eq => by cases eq; rfl

theorem find?_tableOf (distinct : Distinct programs) (key : Value.Key) (p : Program) :
    (tableOf (placed low programs) .empty).find? key = some p ↔
      ∃ b ∈ placed low programs, .text b.1.1 = key ∧ programAt b.1 b.2 = p :=
  OrdMap.find?_foldl_insert _ (nodup_keys_placed distinct low) key p

theorem size_tableOf (distinct : Distinct programs) : (tableOf (placed low programs) .empty).size = programs.length := by
  have keys := nodup_keys_placed distinct low
  unfold tableOf OrdMap.size
  rw [OrdMap.entries_foldl_insert (fun b : (String × Value) × SymbolId => Value.Key.text b.1.1) _ _
    (by simpa [OrdMap.keys, OrdMap.empty] using keys)]
  have length := congrArg List.length (map_fst_starts (fun p => (itemsOf p).length) low programs)
  simpa [OrdMap.empty, placed] using length

def describeTasks (project : NodeId) : List Task → Load Unit
  | [] => return ()
  | t :: ts => do
    describeSymbols ⟨project, t.program, []⟩ [t.item.pending t.id]
    describeTasks project ts

theorem describeTasks_append (project : NodeId) (ts ts' : List Task) :
    describeTasks project (ts ++ ts') = (do describeTasks project ts; describeTasks project ts') := by
  induction ts with
  | nil => rfl
  | cons t ts ih => simp only [List.cons_append, describeTasks, ih, bind_assoc]

theorem describeSymbols_cons (scope : Scope) (p : Pending) (ps : List Pending) :
    describeSymbols scope (p :: ps) = (do describeSymbols scope [p]; describeSymbols scope ps) := by
  rw [describeSymbols.eq_2, describeSymbols.eq_2, describeSymbols.eq_1]
  split <;> simp only [bind_assoc, bind_pure_comp, pure_bind, id_map']

theorem describeSymbols_eq (project : NodeId) (program : Program) (es : List (Item × SymbolId)) :
    describeSymbols ⟨project, program, []⟩ (es.map fun e => e.1.pending e.2) =
      describeTasks project (es.map fun e => ⟨e.1, e.2, program⟩) := by
  induction es with
  | nil => rfl
  | cons e es ih => rw [List.map_cons, List.map_cons, describeSymbols_cons, ih, describeTasks]

theorem describePrograms_eq (project : NodeId) (blocks : List ((String × Value) × SymbolId)) :
    describePrograms project (blocks.map fun b => declaredAt b.1 b.2) = describeTasks project
      (blocks.flatMap fun b => (numbered b.2 (itemsOf b.1)).map fun e => ⟨e.1, e.2, programAt b.1 b.2⟩) := by
  induction blocks with
  | nil => rfl
  | cons b blocks ih =>
    rw [List.map_cons, describePrograms, ih, List.flatMap_cons, describeTasks_append, ← describeSymbols_eq]
    rfl

end Document

end DocTree
