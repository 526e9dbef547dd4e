import DocTree.Document.Load
import DocTree.Proofs.Document.Describe

/-!
# The symbols of a document

First all symbols are declared, program by program; then they are described.

* `symbolSpecs document` : the symbols that the programs of a document list, with their descriptions;
* `declarePrograms_meets` : each of them gets a number, and no other symbol does;
* `describePrograms_meets` : each that is not marked as opaque gets a description on the ground.
-/

namespace DocTree.Document

/-- The symbols that a program lists, with what is said about them. -/
def programSpecs : Value → List (String × Value)
  | .object fields =>
    match (Value.lookup "symbols" fields).getD (.object []) with
    | .object symbols => symbols
    | _ => []
  | _ => []

/-- The symbols of all programs of a document, with what is said about them. -/
def symbolSpecs : Value → List (String × Value)
  | .object fields =>
    match (Value.lookup "programs" fields).getD (.object []) with
    | .object programs => programs.flatMap fun p => programSpecs p.2
    | _ => []
  | _ => []

/-- The names of the symbols of a document. -/
def symbolNames (document : Value) : List String := (symbolSpecs document).map Prod.fst

variable {specs : List (String × Value)} {w w₁ w₂ : Workspace}

/-! ## Declaring -/

/-- The symbols of a program have small numbers. -/
def Below (p : Program) (n : Nat) : Prop := ∀ key symbol, p.symbols.find? key = some symbol → symbol < n

theorem below_empty (name : Value) (n : Nat) : Below (.empty name) n := by
  intro key symbol eq
  cases eq

theorem Below.mono {p : Program} {n m : Nat} (h : Below p n) (le : n ≤ m) : Below p m :=
  fun key symbol eq => Nat.lt_of_lt_of_le (h key symbol eq) le

theorem Below.insert {p : Program} {n : Nat} (h : Below p n) (key : Value.Key) : Below (p.insert key n) (n + 1) := by
  intro key' symbol eq
  unfold Program.insert at eq
  rw [OrdMap.find?_insert] at eq
  split at eq
  · cases eq
    exact Nat.lt_succ_self n
  · exact Nat.lt_succ_of_lt (h key' symbol eq)

/-- Symbols are being declared: the store holds nothing but a bare project, and nothing is
described. -/
structure Declaring (specs : List (String × Value)) (w : Workspace) : Prop where
  project : w.project = 0
  plugin : w.HasPluginOnly
  nodes : ∃ name, w.store.nodes = #[⟨name, .project, none, .project []⟩]
  strays : w.store.strays = .empty
  unbound : ∀ symbol, w.index.bound.find? symbol = none
  blank : ∀ symbol, (w.store.symbol symbol).description = none
  named : ∀ {symbol}, symbol < w.store.symbols.size →
    ∃ spec ∈ specs, (w.store.symbol symbol).name = .str spec.1
  programs : ∀ {key p}, w.programs.find? key = some p → Below p w.store.symbols.size

/-- What declaring comes to: all new symbols wait for their descriptions. -/
structure Awaits (specs : List (String × Value)) (w : Workspace) (pending : List Pending) (w' : Workspace) : Prop where
  declaring : Declaring specs w'
  size_le : w.store.symbols.size ≤ w'.store.symbols.size
  covers : ∀ {symbol}, w.store.symbols.size ≤ symbol → symbol < w'.store.symbols.size →
    ∃ p ∈ pending, p.symbol = symbol
  pending : ∀ p ∈ pending, p.symbol < w'.store.symbols.size ∧ ∃ spec ∈ specs, p.spec = spec.2
  settings : w'.settings = w.settings
  active : w'.active = w.active
  known : w'.known = w.known

theorem Awaits.refl (h : Declaring specs w) : Awaits specs w [] w :=
  ⟨h, Nat.le_refl _, fun above below => absurd below (Nat.not_lt_of_le above), List.forall_mem_nil _, rfl, rfl, rfl⟩

theorem Awaits.trans {pending pending' : List Pending} (h : Awaits specs w pending w₁)
    (h' : Awaits specs w₁ pending' w₂) : Awaits specs w (pending ++ pending') w₂ where
  declaring := h'.declaring
  size_le := Nat.le_trans h.size_le h'.size_le
  covers := fun {symbol} above below => by
    by_cases inside : symbol < w₁.store.symbols.size
    · obtain ⟨p, mem, eq⟩ := h.covers above inside
      exact ⟨p, List.mem_append_left _ mem, eq⟩
    · obtain ⟨p, mem, eq⟩ := h'.covers (Nat.le_of_not_lt inside) below
      exact ⟨p, List.mem_append_right _ mem, eq⟩
  pending := fun p mem => by
    rcases List.mem_append.1 mem with mem | mem
    · exact ⟨Nat.lt_of_lt_of_le (h.pending p mem).1 h'.size_le, (h.pending p mem).2⟩
    · exact h'.pending p mem
  settings := h'.settings.trans h.settings
  active := h'.active.trans h.active
  known := h'.known.trans h.known

/-- One symbol more. -/
theorem Declaring.add (h : Declaring specs w) {name : String} {spec : Value} (listed : (name, spec) ∈ specs)
    (kind : Kind) (program : Option Value) (path : String) :
    Awaits specs w [⟨w.store.symbols.size, kind, path, spec⟩] (withSymbol w ⟨.str name, kind, program, none⟩) := by
  have symbol := symbol_withSymbol w ⟨.str name, kind, program, none⟩
  have size := size_withSymbol w ⟨.str name, kind, program, none⟩
  refine ⟨⟨h.project, h.plugin, h.nodes, h.strays, h.unbound, fun X => ?_, fun {X} below => ?_, fun eq => ?_⟩, ?_, ?_, ?_,
    rfl, rfl, rfl⟩
  · rw [symbol]
    split
    · rfl
    · exact h.blank X
  · rw [symbol]
    split
    · exact ⟨_, listed, rfl⟩
    · rename_i ne
      rw [size] at below
      exact h.named (Nat.lt_of_le_of_ne (Nat.le_of_lt_succ below) ne)
  · rw [size]
    exact (h.programs eq).mono (Nat.le_succ _)
  · rw [size]
    omega
  · intro X above below
    rw [size] at below
    exact ⟨_, List.mem_singleton_self _, Nat.le_antisymm above (Nat.le_of_lt_succ below)⟩
  · intro p mem
    rw [List.mem_singleton.1 mem, size]
    exact ⟨Nat.lt_succ_self _, _, listed, rfl⟩

theorem declareSymbols_meets (fields : List (String × Value)) (listed : ∀ f ∈ fields, f ∈ specs) (program : Program)
    (h : Declaring specs w) (below : Below program w.store.symbols.size) :
    Meets (declareSymbols fields program) w
      (fun answer w' => Awaits specs w answer.2 w' ∧ Below answer.1 w'.store.symbols.size) Whatever := by
  induction fields generalizing w program with
  | nil => exact meets_pure ⟨.refl h, below⟩
  | cons field fields ih =>
    obtain ⟨name, spec⟩ := field
    unfold declareSymbols
    refine meets_bind (readKind_meets _ _) ?_
    rintro kind w rfl
    have first := h.add (listed _ List.mem_cons_self) kind (some program.name)
      ("programs." ++ program.name.text ++ ".symbols." ++ name)
    refine meets_bind (P := fun id w' => id = w.store.symbols.size ∧
      w' = withSymbol w ⟨.str name, kind, some program.name, none⟩) (meets_modifyGet ⟨rfl, rfl⟩) ?_
    rintro id _ ⟨rfl, rfl⟩
    refine meets_bind (ih (fun f mem => listed f (List.mem_cons_of_mem _ mem)) _ first.declaring ?_)
      fun answer w₂ ⟨rest, below'⟩ => ?_
    · rw [size_withSymbol]
      exact below.insert _
    · exact meets_pure ⟨first.trans rest, below'⟩

theorem declareProgram_meets (name : String) (v : Value) (listed : ∀ f ∈ programSpecs v, f ∈ specs)
    (h : Declaring specs w) :
    Meets (declareProgram name v) w
      (fun p w' => Awaits specs w p.pending w' ∧ Below p.program w'.store.symbols.size) Whatever := by
  cases v with
  | object fields =>
    unfold declareProgram
    simp only
    unfold programSpecs at listed
    split
    · rename_i symbols eq
      simp only [eq] at listed
      refine meets_bind (declareSymbols_meets symbols listed (.empty (.str name)) h (below_empty _ _))
        fun answer w₁ declared => ?_
      obtain ⟨awaits, below⟩ := declared
      refine meets_bind (P := fun _ w' =>
        w' = { w₁ with programs := w₁.programs.insert (.text name) answer.1 }) (meets_modify rfl) ?_
      rintro _ _ rfl
      refine meets_pure ⟨⟨?_, awaits.size_le, awaits.covers, awaits.pending, awaits.settings, awaits.active,
        awaits.known⟩, below⟩
      obtain ⟨project, plugin, nodes, strays, unbound, blank, named, programs⟩ := awaits.declaring
      refine ⟨project, plugin, nodes, strays, unbound, blank, named, fun {key p} eq => ?_⟩
      rw [OrdMap.find?_insert] at eq
      split at eq
      · cases eq
        exact below
      · exact programs eq
    · exact refuse_meets
  | _ =>
    unfold declareProgram
    exact meets_throw trivial

theorem declarePrograms_meets (fields : List (String × Value))
    (listed : ∀ p ∈ fields, ∀ f ∈ programSpecs p.2, f ∈ specs) (h : Declaring specs w) :
    Meets (declarePrograms fields) w (fun ps w' => Awaits specs w (ps.flatMap (·.pending)) w' ∧
      ∀ p ∈ ps, Below p.program w'.store.symbols.size) Whatever := by
  induction fields generalizing w with
  | nil => exact meets_pure ⟨.refl h, List.forall_mem_nil _⟩
  | cons field fields ih =>
    obtain ⟨name, spec⟩ := field
    unfold declarePrograms
    refine meets_bind (declareProgram_meets name spec (listed _ List.mem_cons_self) h)
      fun p w₁ ⟨first, below⟩ => ?_
    refine meets_bind (ih (fun p mem => listed p (List.mem_cons_of_mem _ mem)) first.declaring)
      fun ps w₂ ⟨rest, below'⟩ => ?_
    refine meets_pure ⟨first.trans rest, fun p' mem => ?_⟩
    rcases List.mem_cons.1 mem with rfl | mem
    · exact below.mono rest.size_le
    · exact below' p' mem

/-! ## Describing -/

variable {g : Ground}

/-- What describing some of the symbols declared comes to. -/
structure Describes (g : Ground) (w w' : Workspace) : Prop where
  drafting : Drafting g w'
  described : ∀ {symbol}, (w.store.symbol symbol).description.isSome →
    (w'.store.symbol symbol).description.isSome
  programs : w'.programs = w.programs
  settings : w'.settings = w.settings
  active : w'.active = w.active

theorem Describes.refl (h : Drafting g w) : Describes g w w := ⟨h, fun some => some, rfl, rfl, rfl⟩

theorem Describes.trans (h : Describes g w w₁) (h' : Describes g w₁ w₂) : Describes g w w₂ where
  drafting := h'.drafting
  described := fun some => h'.described (h.described some)
  programs := h'.programs.trans h.programs
  settings := h'.settings.trans h.settings
  active := h'.active.trans h.active

def withDescription (w : Workspace) (symbol : SymbolId) (d : Description) : Workspace :=
  { w with store := w.store.modifySymbol symbol fun s => { s with description := some d } }

theorem symbol_withDescription (w : Workspace) {symbol : SymbolId} (inside : symbol < w.store.symbols.size)
    (d : Description) (symbol' : SymbolId) : (withDescription w symbol d).store.symbol symbol' =
      if symbol' = symbol then { w.store.symbol symbol with description := some d }
      else w.store.symbol symbol' := by
  unfold Store.symbol withDescription Store.modifySymbol
  show ((w.store.symbols.modify symbol _)[symbol']?).getD default = _
  rw [Array.getElem?_modify]
  by_cases h : symbol' = symbol
  · subst h
    rw [if_pos rfl, if_pos rfl, Array.getElem?_eq_getElem inside]
    rfl
  · rw [if_neg fun same => h same.symm, if_neg h]

/-- Giving a description to a symbol declared by name, right after it was read. -/
theorem Described.give {d : Description} (drafting : Drafting g w) (h : Described g w d w₁) {symbol : SymbolId}
    (named : symbol < g.top) : Describes g w (withDescription w₁ symbol d) ∧
      ((withDescription w₁ symbol d).store.symbol symbol).description.isSome := by
  obtain ⟨sound, bare, unbound⟩ := h.drafted.drafting
  have view := symbol_withDescription w₁ (sound.catalog.named named).1 d
  have size : (withDescription w₁ symbol d).store.symbols.size = w₁.store.symbols.size := Array.size_modify
  have described : ((withDescription w₁ symbol d).store.symbol symbol).description = some d := by
    rw [view, if_pos rfl]
  have top_le := top_le (g := g.upTo w.store.nodes.size) drafting.sound.catalog
  have catalog' : Catalog (g.upTo w₁.store.nodes.size) (withDescription w₁ symbol d).store := by
    refine sound.catalog.describe (Nat.le_of_eq size.symm) (fun below _ => size ▸ below) ?_ described ?_ h.within ?_
    · intro _
      rw [view, if_pos rfl]
    · intro X ne
      rw [view, if_neg ne]
    · intro member mem
      obtain ⟨above, below, free⟩ := h.loose member mem
      exact ⟨Nat.le_trans top_le above, size.symm ▸ below, free⟩
  refine ⟨⟨.of_unbound sound.project sound.plugin catalog' (sound.layout.congr rfl rfl) sound.consistent bare unbound,
    ?_, h.drafted.programs, h.drafted.settings, h.drafted.active⟩, ?_⟩
  · intro X some
    rw [view]
    split
    · rfl
    · have lt : X < w.store.symbols.size := by
        obtain ⟨d', eq⟩ := Option.isSome_iff_exists.1 some
        exact Store.lt_of_described eq
      rwa [h.drafted.symbol lt]
  · rw [described]
    rfl

theorem describeSymbols_meets {scope : Scope} (fits : scope.Fits g) (pending : List Pending)
    (named : ∀ p ∈ pending, p.symbol < g.top) (drafting : Drafting g w) :
    Meets (describeSymbols scope pending) w (fun _ w' => Describes g w w' ∧
      ∀ p ∈ pending, isOpaque p.spec = false → (w'.store.symbol p.symbol).description.isSome) Whatever := by
  induction pending generalizing w with
  | nil => exact meets_pure ⟨.refl drafting, List.forall_mem_nil _⟩
  | cons p ps ih =>
    have rest := fun {w : Workspace} (drafting : Drafting g w) =>
      ih (w := w) (fun p mem => named p (List.mem_cons_of_mem _ mem)) drafting
    unfold describeSymbols
    simp only
    split
    · refine meets_bind (describe_meets fits p.path p.kind p.spec drafting) fun d w₁ described => ?_
      obtain ⟨first, here⟩ := described.give drafting (named p List.mem_cons_self)
      refine meets_bind (P := fun _ w' => w' = withDescription w₁ p.symbol d) (meets_modify rfl) ?_
      rintro _ _ rfl
      refine (rest first.drafting).mono (fun _ w₂ ⟨later, all⟩ => ⟨first.trans later, fun p' mem notOpaque => ?_⟩)
        fun _ _ _ => trivial
      rcases List.mem_cons.1 mem with rfl | mem
      · exact later.described here
      · exact all p' mem notOpaque
    · rename_i marked
      refine (rest drafting).mono (fun _ w₂ ⟨later, all⟩ => ⟨later, fun p' mem notOpaque => ?_⟩)
        fun _ _ _ => trivial
      rcases List.mem_cons.1 mem with rfl | mem
      · rw [notOpaque] at marked
        exact absurd rfl marked
      · exact all p' mem notOpaque

theorem describePrograms_meets (ps : List DeclaredProgram)
    (fits : ∀ p ∈ ps, (⟨g.project, p.program, []⟩ : Scope).Fits g)
    (named : ∀ p ∈ ps.flatMap (·.pending), p.symbol < g.top) (drafting : Drafting g w) :
    Meets (describePrograms g.project ps) w (fun _ w' => Describes g w w' ∧
      ∀ p ∈ ps.flatMap (·.pending), isOpaque p.spec = false →
        (w'.store.symbol p.symbol).description.isSome) Whatever := by
  induction ps generalizing w with
  | nil => exact meets_pure ⟨.refl drafting, List.forall_mem_nil _⟩
  | cons p ps ih =>
    unfold describePrograms
    refine meets_bind (describeSymbols_meets (fits p List.mem_cons_self) p.pending
      (fun q mem => named q (List.mem_append_left _ mem)) drafting) fun _ w₁ ⟨first, here⟩ => ?_
    refine (ih (fun q mem => fits q (List.mem_cons_of_mem _ mem))
      (fun q mem => named q (List.mem_append_right _ mem)) first.drafting).mono
      (fun _ w₂ ⟨later, all⟩ => ⟨first.trans later, fun q mem notOpaque => ?_⟩) fun _ _ _ => trivial
    rcases List.mem_append.1 mem with mem | mem
    · exact later.described (here q mem notOpaque)
    · exact all q mem notOpaque

/-! ## All programs -/

def groundOf (specs : List (String × Value)) (w : Workspace) : Ground :=
  ⟨0, w.store.nodes.size, w.store.symbols.size, specs.map Prod.fst⟩

/-- With all symbols declared, the description can begin. -/
theorem Declaring.drafting (h : Declaring specs w) : Drafting (groundOf specs w) w := by
  obtain ⟨name, nodes⟩ := h.nodes
  have size : w.store.nodes.size = 1 := by rw [nodes]; rfl
  have consistent := Index.consistent_of_bound_empty h.unbound
  have project : w.store.node 0 = ⟨name, .project, none, .project []⟩ := by
    rw [Store.node, nodes]
    rfl
  have parts : ∀ {id}, id < w.store.nodes.size → (w.store.node id).parts = [] := by
    intro id inside
    rw [size] at inside
    rw [Nat.lt_one_iff.1 inside, project]
    rfl
  have membersOf : ∀ owner, w.store.membersOf owner = [] := by
    intro owner
    rw [Store.membersOf, h.blank]
    rfl
  refine .of_unbound h.project h.plugin ?_ ?_ consistent ⟨_, project⟩ fun symbol =>
    (consistent.nodeOf?_eq symbol).trans (h.unbound symbol)
  · constructor
    · intro X lt
      obtain ⟨spec, mem, eq⟩ := h.named lt
      exact ⟨lt, spec.1, List.mem_map_of_mem mem, eq⟩
    · intro X d eq
      rw [h.blank] at eq
      cases eq
    · intro owner member mem
      rw [membersOf] at mem
      cases mem
    · intro X above below
      exact absurd below (Nat.not_lt_of_le above)
    · intro a b member mem
      rw [membersOf] at mem
      cases mem
  · refine .of_bare h.strays ?_ rfl (congrArg Node.body project) ?_ ?_
    · show 0 < w.store.nodes.size
      rw [size]
      exact Nat.one_pos
    · intro id inside u mem
      rw [parts inside] at mem
      cases mem
    · intro id c inside _ mem
      rw [parts inside] at mem
      cases mem

/-- A document none of whose symbols is marked as opaque. -/
def Transparent (document : Value) : Prop := ∀ spec ∈ symbolSpecs document, isOpaque spec.2 = false

/-- The state of affairs once all programs are loaded. -/
structure Loaded (specs : List (String × Value)) (g : Ground) (w : Workspace) : Prop where
  drafting : Drafting g w
  names : g.names = specs.map Prod.fst
  programs : ∀ {key p}, w.programs.find? key = some p → Below p g.top
  described : (∀ spec ∈ specs, isOpaque spec.2 = false) →
    ∀ {symbol}, symbol < g.top → (w.store.symbol symbol).description.isSome

/-- Loading the programs of a document leads to a workspace on firm ground. -/
theorem loadPrograms_meets (source v : Value)
    (listed : ∀ programs, v = .object programs → ∀ p ∈ programs, ∀ f ∈ programSpecs p.2, f ∈ specs)
    (h : Declaring specs w) (blank : w.store.symbols.size = 0) :
    Meets (loadPrograms source v) w (fun _ w' => (∃ g, Loaded specs g w') ∧ w'.settings = w.settings ∧
      w'.active = w.active) Whatever := by
  unfold loadPrograms
  split
  · rename_i programs
    refine meets_bind (declarePrograms_meets programs (listed programs rfl) h) fun ps w₁ declared => ?_
    obtain ⟨awaits, below⟩ := declared
    have drafting := awaits.declaring.drafting
    have project : w₁.project = (groundOf specs w₁).project := awaits.declaring.project
    refine meets_bind (P := fun v w' => v = w₁ ∧ w' = w₁) (meets_get ⟨rfl, rfl⟩) fun v w' eq => ?_
    rw [eq.1, eq.2, project]
    refine (describePrograms_meets ps (fun p mem => ⟨rfl, fun {key symbol} eq => below p mem key symbol eq⟩)
      (fun p mem => (awaits.pending p mem).1) drafting).mono (fun _ w₂ described => ?_) fun _ _ _ => trivial
    obtain ⟨describes, all⟩ := described
    refine ⟨⟨groundOf specs w₁, describes.drafting, rfl, fun eq => ?_, fun transparent symbol lt => ?_⟩,
      describes.settings.trans awaits.settings, describes.active.trans awaits.active⟩
    · exact awaits.declaring.programs (describes.programs ▸ eq)
    · obtain ⟨p, mem, rfl⟩ := awaits.covers (blank ▸ Nat.zero_le symbol) lt
      obtain ⟨_, spec, listed, same⟩ := awaits.pending p mem
      exact all p mem (same ▸ transparent spec listed)
  · exact meets_throw trivial

end DocTree.Document
