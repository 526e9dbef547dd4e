import DocTree.Proofs.Document.Programs
import DocTree.Proofs.Settings
import DocTree.Proofs.Workspace.Edits

/-!
# Loaded documents

* `Modular g w` : what hangs below the project are modules; each that holds anything is known to come
  from a program;
* `loadModules_meets`, `loadContents_meets` : modules and exports keep a workspace sound;
* `Workspace.Opened document w` : `w` is what loading a document and setting options leads to;
* `Opened.ready` : what is known of such a workspace, whatever the document.
-/

namespace DocTree

open Workspace

/-- Below the project there are modules only, and each that holds anything is known to come from a
program. -/
def Modular (g : Ground) (w : Workspace) : Prop :=
  ∀ m ∈ w.store.children g.project, ∃ name children,
    w.store.node m = ⟨name, .module, some g.project, .declaration { children := children }⟩ ∧
      (children ≠ [] → (w.known.find? m).isSome)

namespace Document

variable {g : Ground} {extras : Set (Kind × Value)} {w w₁ : Workspace}

/-- The state of affairs while modules and exports are loaded. -/
structure Filling (g : Ground) (w : Workspace) : Prop where
  sound : Sound g w
  tracked : Tracked g w
  programs : ∀ {key p}, w.programs.find? key = some p → Below p g.top

/-! ## Exports -/

theorem mem_values {α β : Type} [DecidableEq α] {m : OrdMap α β} {b : β} (mem : b ∈ m.values) :
    ∃ a, m.find? a = some b := by
  obtain ⟨⟨a, b'⟩, here, rfl⟩ := List.mem_map.1 mem
  exact ⟨a, (m.find?_eq_some_iff a b').2 here⟩

/-- A program that is found stands under its name, or is the only one. -/
theorem found_of_programNamed {path name : Value} {p : Program} (eq : programNamed path name w = .ok p w₁) :
    w₁ = w ∧ (name = .null ∧ w.programs.values = [p] ∨
      ∃ key, name.key? = some key ∧ w.programs.find? key = some p) := by
  have meets : Meets (programNamed path name) w (fun p w' => w' = w ∧ (name = .null ∧ w.programs.values = [p] ∨
      ∃ key, name.key? = some key ∧ w.programs.find? key = some p)) Whatever := by
    unfold programNamed
    refine meets_bind (P := fun v w' => v = w ∧ w' = w) (meets_get ⟨rfl, rfl⟩) fun v w' same => ?_
    rw [same.1, same.2]
    simp only
    split
    · rename_i only
      exact meets_pure ⟨rfl, Or.inl ⟨rfl, only⟩⟩
    · split
      · rename_i found
        exact meets_pure ⟨rfl, Or.inr (Option.bind_eq_some_iff.1 found)⟩
      · exact meets_throw trivial
  exact meets.of_ok eq

theorem exists_key_of_programNamed {path name : Value} {p : Program} (eq : programNamed path name w = .ok p w₁) :
    ∃ key, w.programs.find? key = some p := by
  obtain ⟨_, ⟨_, only⟩ | ⟨key, _, found⟩⟩ := found_of_programNamed eq
  · exact mem_values (by rw [only]; exact List.mem_singleton_self _)
  · exact ⟨key, found⟩

theorem programNamed_meets (h : Filling g w) (path name : Value) :
    Meets (programNamed path name) w (fun p w' => w' = w ∧ Below p g.top) Whatever := by
  unfold Meets
  split
  · rename_i eq
    obtain ⟨key, found⟩ := exists_key_of_programNamed eq
    exact ⟨(found_of_programNamed eq).1, h.programs found⟩
  · trivial

def NamesIn (program : Program) (name : Value) (symbol : SymbolId) : Prop :=
  name.key?.bind program.symbols.find? = some symbol

theorem exportNamed_meets {program : Program} (below : Below program g.top) (path name : Value) :
    Meets (exportNamed path program name) w
      (fun symbol w' => w' = w ∧ symbol < g.top ∧ NamesIn program name symbol) Whatever := by
  unfold exportNamed
  split
  · exact meets_throw trivial
  · rename_i key here
    split
    · rename_i symbol eq
      exact meets_pure ⟨rfl, below _ symbol eq, by rw [NamesIn, here, Option.bind_some, eq]⟩
    · exact meets_throw trivial

theorem convertSymbol_eq {scope : NodeId} {symbol : SymbolId} (hosts : Hosts g w scope [symbol])
    (active : w.active.isSome) :
    ∃ w', convertSymbol scope symbol w = .ok () w' ∧ Converts w scope [symbol] w' := by
  obtain ⟨w', eq, converts⟩ := convert_eq hosts active
  have got : (get : Load Workspace) w = .ok w w := rfl
  refine ⟨w', ?_, converts⟩
  unfold convertSymbol
  rw [bind_of_ok got, eq]
  rfl

theorem convertSymbol_meets {scope : NodeId} {symbol : SymbolId} (hosts : Hosts g w scope [symbol])
    (active : w.active.isSome) :
    Meets (convertSymbol scope symbol) w (fun _ w' => Converts w scope [symbol] w') Whatever := by
  obtain ⟨w', eq, converts⟩ := convertSymbol_eq hosts active
  unfold Meets
  rw [eq]
  exact converts

theorem hosts_of_named {scope : NodeId} {symbols : List SymbolId} (sound : Sound g w) (proper : g.Proper scope)
    (container : w.store.isContainer scope = true) (named : ∀ symbol ∈ symbols, symbol < g.top) :
    Hosts g w scope symbols :=
  ⟨sound, proper, container, fun symbol mem => Or.inl (named symbol mem)⟩

theorem convertNames_meets {program : Program} (below : Below program g.top) {scope : NodeId}
    (path : Value) (names : List Value) (sound : Sound g w) (proper : g.Proper scope)
    (container : w.store.isContainer scope = true) (active : w.active.isSome) :
    Meets (convertNames scope path program names) w (fun _ w' => ∃ symbols, (∀ symbol ∈ symbols, symbol < g.top) ∧
      List.Forall₂ (NamesIn program) names symbols ∧ Converts w scope symbols w') Whatever := by
  induction names generalizing w with
  | nil => exact meets_pure ⟨[], List.forall_mem_nil _, .nil, .nil w scope⟩
  | cons name names ih =>
    unfold convertNames
    refine meets_bind (exportNamed_meets below path name) ?_
    rintro symbol w ⟨rfl, named, stands⟩
    have all : ∀ symbol' ∈ [symbol], symbol' < g.top := fun symbol' mem => List.mem_singleton.1 mem ▸ named
    have hosts := hosts_of_named sound proper container all
    refine meets_bind (convertSymbol_meets hosts active) fun _ w₁ converts => ?_
    have spec := converts.spec hosts
    have twice : Hosts g w scope [symbol, symbol] := hosts_of_named sound proper container (by simpa using named)
    have container₁ := (twice.rest spec.sound spec.ext).container
    refine (ih spec.sound container₁ (spec.ext.kept.active ▸ active)).mono
      (fun _ w₂ rest => ?_) fun _ _ _ => trivial
    obtain ⟨symbols, named', others, rest⟩ := rest
    refine ⟨symbol :: symbols, fun symbol' mem => ?_, .cons stands others, converts.append rest⟩
    rcases List.mem_cons.1 mem with rfl | mem
    · exact named
    · exact named' symbol' mem

/-- What converting exports comes to: conversion while a program is active. -/
theorem convertExports_meets {program : Program} (below : Below program g.top) {scope : NodeId} (path : Value)
    (exports : Option Value) (sound : Sound g w) (proper : g.Proper scope)
    (container : w.store.isContainer scope = true) :
    Meets (convertExports scope path program exports) w (fun _ w' => ∃ names symbols w₁,
      (exports.getD (.list [])).parts? = some names ∧ List.Forall₂ (NamesIn program) names symbols ∧
        (∀ symbol ∈ symbols, symbol < g.top) ∧ Converts (w.activate (some program.name)) scope symbols w₁ ∧
        w' = w₁.activate none) Whatever := by
  unfold convertExports
  refine meets_bind (P := fun _ w' => w' = w.activate (some program.name)) (meets_modify rfl) ?_
  rintro _ _ rfl
  refine meets_bind (parts_meets _) ?_
  rintro names _ ⟨rfl, here⟩
  refine meets_bind (convertNames_meets below path names (sound.activate _) proper container rfl)
    fun _ w₁ ⟨symbols, named, stands, converts⟩ => ?_
  exact meets_modify ⟨names, symbols, w₁, here, stands, named, converts, rfl⟩

/-! ## Modules -/

/-- What is known of the contents of a project while it is filled. -/
structure Filled (g : Ground) (extras : Set (Kind × Value)) (w w' : Workspace) : Prop where
  filling : Filling g w'
  modular : Modular g w → Modular g w'
  inactive : w.active = none → w'.active = none
  symbols : w'.store.symbols = w.store.symbols
  settings : w'.settings = w.settings
  edits : Edits g extras w w'

theorem Filled.refl (h : Filling g w) : Filled g extras w w := ⟨h, fun m => m, fun a => a, rfl, rfl, .refl w⟩

theorem Filled.trans {w₂ : Workspace} (h : Filled g extras w w₁) (h' : Filled g extras w₁ w₂) : Filled g extras w w₂ :=
  ⟨h'.filling, fun m => h'.modular (h.modular m), fun a => h'.inactive (h.inactive a), h'.symbols.trans h.symbols,
    h'.settings.trans h.settings, h.edits.trans h'.edits⟩

theorem Filled.mono {extras' : Set (Kind × Value)} (h : Filled g extras w w₁) (sub : extras ⊆ extras') :
    Filled g extras' w w₁ :=
  ⟨h.filling, h.modular, h.inactive, h.symbols, h.settings, h.edits.mono sub⟩

def withModule (w : Workspace) (program name : Value) : Workspace :=
  (((w.activate (some program)).create w.project .module name none).2.announce w.project
    w.store.nodes.size).activate none

theorem Filling.isContainer_project (h : Filling g w) : w.store.isContainer g.project = true := by
  obtain ⟨children, project⟩ := h.sound.layout.project
  rw [Store.isContainer, project]
  rfl

/-- A new module is put behind the others, and is empty. -/
theorem Filling.withModule (h : Filling g w) (program name : Value) :
    w.store.Sprouts g.project [] (withModule w program name).store ∧ Sound g (withModule w program name) ∧
      Kept (w.activate (some program)) ((withModule w program name).activate (some program)) ∧
      (withModule w program name).store.node w.store.nodes.size =
        ⟨name, .module, some g.project, .declaration {}⟩ := by
  have inside : g.project < w.store.nodes.size := h.sound.layout.project_lt_size
  obtain ⟨grown, sound⟩ := (h.sound.activate (some program)).create (Or.inl rfl) h.isContainer_project inside .module name
  have last := (node_create (w := w.activate (some program)) .module name none inside
    w.store.nodes.size).trans (if_pos rfl)
  unfold Document.withModule
  rw [h.sound.project]
  have quiet := quiet_announce ((w.activate (some program)).create g.project .module name none).2 g.project
    w.store.nodes.size
  refine ⟨?_, (sound.quiet quiet).activate none, ?_, ?_⟩
  · show w.store.Sprouts g.project [] (Workspace.announce _ _ _).store
    rw [quiet.store]
    exact grown
  · have kept := (kept_create (w.activate (some program)) g.project .module name none).trans quiet.kept
    exact ⟨kept.symbols, kept.strays, kept.project, rfl, kept.programs, kept.settings, kept.listeners, kept.known⟩
  · show (Workspace.announce _ _ _).store.node w.store.nodes.size = _
    rw [quiet.store]
    exact last

theorem Filling.tracked_withModule (h : Filling g w) (program name : Value) :
    Tracked g (Document.withModule w program name) := by
  obtain ⟨grown, _⟩ := h.withModule program name
  refine h.tracked.sprouts grown h.isContainer_project h.sound.layout.project_lt_size h.sound.layout.project_lt_size
    fun id => ?_
  have container := h.isContainer_project
  unfold Document.withModule
  rw [h.sound.project]
  have kept := kept_create (w.activate (some program)) g.project .module name none
  refine (known_announce_iff (kept.listeners.trans h.sound.plugin) _ _ (kept.active ▸ rfl) id).trans ?_
  have inside : g.project < (w.activate (some program)).store.nodes.size := h.sound.layout.project_lt_size
  rw [node_create .module name none inside, if_neg (Nat.ne_of_lt inside), if_pos rfl]
  exact Iff.rfl

theorem Filling.edits_withModule (h : Filling g w) (program name : Value) :
    Edits g {(.module, name)} w (Document.withModule w program name) := by
  have site : Site g (w.activate (some program)) w.project :=
    h.sound.project.symm ▸ ⟨.refl _, Or.inl rfl, h.isContainer_project⟩
  have created : Edits g {(.module, name)} w ((w.activate (some program)).create w.project .module name none).2 :=
    (edits_activate w _).trans (Edit.created site (.module (Set.mem_singleton _))).edits
  unfold Document.withModule
  exact (created.trans (quiet_announce ..).edits).trans (edits_activate ..)

/-- Creating a module always succeeds. -/
theorem Filling.createModule_eq (h : Filling g w) (program name : Value) :
    createModule program name w = .ok w.store.nodes.size (Document.withModule w program name) := by
  have project : (w.activate (some program)).project = g.project := h.sound.project
  have made : (w.activate (some program)).create? g.project .module name none =
      .ok ((w.activate (some program)).create g.project .module name none) := if_pos h.isContainer_project
  have kept := kept_create (w.activate (some program)) g.project .module name none
  have plugin : ((w.activate (some program)).create g.project .module name none).2.HasPluginOnly :=
    kept.listeners.trans h.sound.plugin
  have activated : (modify (·.activate (some program)) : Load PUnit) w = .ok ⟨⟩ (w.activate (some program)) := rfl
  have got : (get : Load Workspace) (w.activate (some program)) = .ok (w.activate (some program)) _ := rfl
  unfold createModule Document.withModule
  rw [bind_of_ok activated, bind_of_ok got, h.sound.project, project]
  simp only [made, announce?, canAnnounce_of_plugin plugin, if_true]
  rw [kept.project.trans project]
  rfl

theorem createModule_leads (h : Filling g w) (program name : Value) :
    Meets (createModule program name) w (fun id w' => id = w.store.nodes.size ∧ w' = withModule w program name)
      Whatever := by
  unfold Meets
  rw [h.createModule_eq]
  exact ⟨rfl, rfl⟩

theorem createModule_meets (h : Filling g w) (program name : Value) :
    Meets (createModule program name) w (fun id w' => Filled g {(.module, name)} w w' ∧ g.base ≤ id ∧
      id ∈ w'.store.children g.project ∧ w'.store.isContainer id = true) Whatever := by
  obtain ⟨grown, sound, kept, last⟩ := h.withModule program name
  have children := grown.children h.isContainer_project
  refine (createModule_leads h program name).mono (fun id w' eq => ?_) fun _ _ _ => trivial
  rw [eq.1, eq.2]
  have filling : Filling g (withModule w program name) :=
    ⟨sound, h.tracked_withModule program name, fun eq => h.programs (kept.programs ▸ eq)⟩
  refine ⟨⟨filling, fun modular m mem => ?_, fun _ => rfl, kept.symbols, kept.settings,
    h.edits_withModule program name⟩, h.sound.layout.base_le, ?_, ?_⟩
  · rw [children, if_pos rfl] at mem
    rcases List.mem_append.1 mem with mem | mem
    · obtain ⟨above, below, _⟩ := h.sound.layout.child (Or.inl rfl) mem
      obtain ⟨name', children', eq, known⟩ := modular m mem
      exact ⟨name', children', (grown.same below (h.sound.layout.ne_project above)).trans eq,
        fun some => kept.known (known some)⟩
    · rw [List.mem_singleton.1 mem]
      exact ⟨name, [], last, fun some => absurd rfl some⟩
  · rw [children, if_pos rfl]
    exact List.mem_append_right _ (List.mem_singleton_self _)
  · rw [Store.isContainer, last]
    rfl

/-- Exports converted in a module leave all other modules alone, and mark the module. -/
theorem filled_of_exports {scope : NodeId} {symbols : List SymbolId} {program : Value} (h : Filling g w)
    (proper : g.Proper scope) (container : w.store.isContainer scope = true)
    (named : ∀ symbol ∈ symbols, symbol < g.top) (way : w.store.Reaches g.project scope)
    (converts : Converts (w.activate (some program)) scope symbols w₁) :
    Filling g (w₁.activate none) ∧ w₁.store.symbols = w.store.symbols ∧ w₁.settings = w.settings ∧
      Edits g ∅ w (w₁.activate none) ∧ (scope ≠ g.project → Modular g w → Modular g (w₁.activate none)) := by
  have hosts := hosts_of_named (h.sound.activate (some program)) proper container named
  have spec := converts.spec hosts
  have kept := spec.ext.kept
  have tracked := converts.tracked hosts rfl (h.tracked.of_same rfl rfl)
  refine ⟨⟨spec.sound.activate none, tracked.of_same rfl rfl, fun eq => h.programs (kept.programs ▸ eq)⟩,
    kept.symbols, kept.settings,
    ((edits_activate w _).trans (converts.edits hosts way)).trans (edits_activate ..), fun ne modular m mem => ?_⟩
  have project : w₁.store.node g.project = w.store.node g.project :=
    spec.ext.same h.sound.layout.project_lt_size ne.symm
  have mem : m ∈ w.store.children g.project := by
    rw [Store.children, ← project]
    exact mem
  obtain ⟨name, children, eq, known⟩ := modular m mem
  obtain ⟨_, below, _⟩ := h.sound.layout.child (Or.inl rfl) mem
  by_cases here : m = scope
  · subst here
    obtain ⟨ids, _, widened⟩ := spec.ext.widened
    have eq' : w₁.store.node m = ⟨name, .module, some g.project, .declaration { children := children ++ ids }⟩ := by
      rw [widened, show (w.activate (some program)).store.node m = _ from eq]
      rfl
    refine ⟨name, children ++ ids, eq', fun some => ?_⟩
    refine tracked.marked proper ?_ ?_
    · rw [eq']
      show Kind.module.meets trackedKinds = true
      decide
    · rwa [Store.children, eq']
  · exact ⟨name, children, (spec.ext.same below here).trans eq, fun some => kept.known (known some)⟩

theorem loadModule_meets (h : Filling g w) (path : String) {v : Value}
    (listed : ∀ {fields name}, v = .object fields → Value.lookup "name" fields = some name → (.module, name) ∈ extras) :
    Meets (loadModule path v) w (fun _ w' => Filled g extras w w') Whatever := by
  unfold loadModule
  split
  · split
    · exact refuse_meets
    · rename_i name eq
      refine meets_bind (programNamed_meets h _ _) ?_
      rintro program w ⟨rfl, below⟩
      refine meets_bind (createModule_meets h program.name name) fun id w₁ created => ?_
      obtain ⟨first, above, mem, container⟩ := created
      refine (convertExports_meets below _ _ first.filling.sound (Or.inr above) container).mono
        (fun _ w₂ exported => ?_) fun _ _ _ => trivial
      obtain ⟨_, symbols, w₃, _, _, named, converts, eq'⟩ := exported
      have way : w₁.store.Reaches g.project id :=
        .single (Node.mem_successors.2 (Or.inl (Node.mem_parts_of_mem_children mem)))
      obtain ⟨filling, same, settings, edits, modular⟩ :=
        filled_of_exports first.filling (Or.inr above) container named way converts
      subst eq'
      exact (first.mono (Set.singleton_subset_iff.2 (listed rfl eq))).trans
        ⟨filling, modular (first.filling.sound.layout.ne_project above), fun _ => rfl, same, settings,
          edits.mono (Set.empty_subset _)⟩
  · exact refuse_meets

theorem loadModules_meets (h : Filling g w) (source : Value) (i : Nat) {vs : List Value}
    (listed : ∀ {fields name}, .object fields ∈ vs → Value.lookup "name" fields = some name → (.module, name) ∈ extras) :
    Meets (loadModules source i vs) w (fun _ w' => Filled g extras w w') Whatever := by
  induction vs generalizing w i with
  | nil => exact meets_pure (.refl h)
  | cons v vs ih =>
    unfold loadModules
    refine meets_bind (loadModule_meets h _ fun here => listed (here ▸ List.mem_cons_self)) fun _ w₁ first => ?_
    exact (ih first.filling (i + 1) fun mem => listed (List.mem_cons_of_mem _ mem)).mono
      (fun _ w₂ rest => first.trans rest) fun _ _ _ => trivial

/-! ## Contents -/

/-- The modules that a document lists, by kind and name. -/
def listedModules (document : Value) : Set (Kind × Value) :=
  {e | ∃ entries fields name, ((Value.lookup "modules" document.fields).getD .null).parts? = some entries ∧
    .object fields ∈ entries ∧ Value.lookup "name" fields = some name ∧ e = (.module, name)}

/-- Whether a document lists modules. -/
def HasModules (document : Value) : Prop :=
  ∃ fields modules, document = .object fields ∧ Value.lookup "modules" fields = some (.list modules)

theorem loadContents_meets (h : Filling g w) (inactive : w.active = none) (source : Value)
    (fields : List (String × Value)) :
    Meets (loadContents source fields) w (fun _ w' => Filling g w' ∧ w'.active = none ∧
      w'.store.symbols = w.store.symbols ∧ w'.settings = w.settings ∧ Edits g (listedModules (.object fields)) w w' ∧
      (HasModules (.object fields) → Modular g w → Modular g w')) Whatever := by
  unfold loadContents
  split
  · rename_i eq
    refine meets_bind (programNamed_meets h _ _) ?_
    rintro program w ⟨rfl, below⟩
    refine meets_bind (P := fun v w' => v = w ∧ w' = w) (meets_get ⟨rfl, rfl⟩) fun v w' same => ?_
    rw [same.1, same.2, h.sound.project]
    refine (convertExports_meets below _ _ h.sound (Or.inl rfl) h.isContainer_project).mono
      (fun _ w₂ ⟨_, symbols, w₃, _, _, named, converts, eq'⟩ => ?_) fun _ _ _ => trivial
    obtain ⟨filling, same, settings, edits, _⟩ :=
      filled_of_exports h (Or.inl rfl) h.isContainer_project named (.refl _) converts
    subst eq'
    refine ⟨filling, rfl, same, settings, edits.mono (Set.empty_subset _), fun modules => ?_⟩
    obtain ⟨_, modules, here, found⟩ := modules
    cases here
    rw [found] at eq
    cases eq
  · refine meets_bind (parts_meets _) ?_
    rintro vs w ⟨rfl, here⟩
    have listed : ∀ {fields' name}, .object fields' ∈ vs → Value.lookup "name" fields' = some name →
        (.module, name) ∈ listedModules (.object fields) := fun mem named => ⟨vs, _, _, here, mem, named, rfl⟩
    exact (loadModules_meets h source 0 listed).mono (fun _ w₂ filled =>
      ⟨filled.filling, filled.inactive inactive, filled.symbols, filled.settings, filled.edits,
        fun _ => filled.modular⟩)
      fun _ _ _ => trivial

/-! ## Documents -/

/-- A workspace in which nothing was loaded, and nobody but the plugin listens. -/
structure Fresh (w : Workspace) : Prop where
  store : w.store = .empty
  plugin : w.HasPluginOnly
  configured : w.settings.Configured
  known : w.known = .empty

theorem fresh_withPlugin : Fresh withPlugin := ⟨rfl, rfl, configured_withPlugin, rfl⟩

theorem loadOptions_meets (h : Fresh w) (v : Value) : Meets (loadOptions v) w (fun _ w' => Fresh w') Whatever := by
  unfold loadOptions
  split
  · rename_i options
    refine meets_bind (P := fun v w' => v = w ∧ w' = w) (meets_get ⟨rfl, rfl⟩) fun v w' same => ?_
    rw [same.1, same.2]
    have same := setOptions_same options w
    have fresh : Fresh (w.setOptions options).2 := by
      refine ⟨?_, ?_, configured_setOptions options h.configured, ?_⟩
      · rw [same]
        exact h.store
      · rw [same]
        exact h.plugin
      · rw [same]
        exact h.known
    split
    · rename_i w₁ eq
      exact meets_set (by rw [eq] at fresh; exact fresh)
    · exact meets_bind (P := fun _ _ => True) (meets_set trivial) fun _ _ _ => meets_throw trivial
  · exact meets_throw trivial

theorem Fresh.store_startProject (h : Fresh w) (name : Value) :
    (w.startProject name).store = (Store.empty.addProject name).2 := by
  show (w.store.addProject name).2 = _
  rw [h.store]

theorem Fresh.project_startProject (h : Fresh w) (name : Value) : (w.startProject name).project = 0 := by
  show (w.store.addProject name).1 = 0
  rw [h.store]
  rfl

theorem Fresh.declaring (h : Fresh w) (specs : List (String × Value)) (name : Value) :
    Declaring specs (w.startProject name) ∧ (w.startProject name).store.symbols.size = 0 := by
  have store := h.store_startProject name
  have project := h.project_startProject name
  have symbols : (w.startProject name).store.symbols = #[] := by
    rw [store]
    rfl
  refine ⟨⟨project, h.plugin, ⟨name, by rw [store]; rfl⟩, by rw [store]; rfl, fun symbol => ?_, fun symbol => ?_,
    fun below => ?_, nofun⟩, by rw [symbols]; rfl⟩
  · rw [index, project, store]
    rfl
  · rw [Store.symbol, symbols]
    rfl
  · rw [symbols] at below
    cases below

/-- The workspace of a document right after its programs were loaded: all its inline declarations wait to be taken
over, each in one place, nothing was ever bound, and nothing hangs below the project. -/
structure Origin (g : Ground) (w : Workspace) : Prop where
  sound : Sound g w
  base : g.base = w.store.nodes.size
  unbound : ∀ symbol, w.nodeOf? symbol = none
  tallied : Tallied w.store []
  known : w.known = .empty
  bare : ∃ name, w.store.node g.project = ⟨name, .project, none, .project []⟩
  bindings : w.bindings = .empty
  symbolsOf : ∀ id, w.index.symbolsOf id = []
  plain : ∀ id, (w.store.node id).Plain

theorem Origin.root (h : Origin g w) : (w.store.node g.project).isKind trackedKinds = true := by
  obtain ⟨name, bare⟩ := h.bare
  rw [bare]
  show Kind.project.meets trackedKinds = true
  decide

theorem tracked_of_drafting (h : Drafting g w) (known : w.known = .empty) : Tracked (g.upTo w.store.nodes.size) w := by
  obtain ⟨name, bare⟩ := h.bare
  refine ⟨?_, fun {id} here => ?_, fun {id} proper _ some => absurd ?_ some⟩
  · show (w.store.node g.project).isKind trackedKinds = true
    rw [bare]
    show Kind.project.meets trackedKinds = true
    decide
  · rw [known] at here
    cases here
  · rcases proper with rfl | above
    · show w.store.children g.project = []
      rw [Store.children, bare]
      rfl
    · exact Store.children_of_size_le above

/-- What is known of a workspace when the programs of a document are loaded. -/
structure Supplied (document : Value) (g : Ground) (w : Workspace) : Prop where
  filling : Filling g w
  origin : Origin g w
  names : g.names = symbolNames document
  inactive : w.active = none
  configured : w.settings.Configured
  described : Transparent document → ∀ {symbol}, symbol < g.top → (w.store.symbol symbol).description.isSome

/-- Loading programs into a new project leads there, unless it fails. -/
theorem Fresh.supplied (h : Fresh w) (source : Value) (fields : List (String × Value)) :
    Meets (loadPrograms source ((Value.lookup "programs" fields).getD (.object [])))
      (w.startProject ((Value.lookup "name" fields).getD (.str "project")))
      (fun _ w' => ∃ g, Supplied (.object fields) g w') Whatever := by
  obtain ⟨declaring, blank⟩ := h.declaring (symbolSpecs (.object fields))
    ((Value.lookup "name" fields).getD (.str "project"))
  have listed : ∀ programs, (Value.lookup "programs" fields).getD (.object []) = .object programs →
      ∀ p ∈ programs, ∀ f ∈ programSpecs p.2, f ∈ symbolSpecs (.object fields) := by
    intro programs eq p mem f inside
    unfold symbolSpecs
    simp only [eq]
    exact List.mem_flatMap.2 ⟨p, mem, inside⟩
  refine (((loadPrograms_meets source _ listed declaring blank).and
    (loadPrograms_tallies source _ listed declaring)).and (loadPrograms_augmenting source _ _)).mono
    (fun _ w₂ drafted => ?_) fun _ _ _ => trivial
  obtain ⟨⟨⟨⟨g, loaded⟩, settings, active⟩, tallied, known⟩, augments⟩ := drafted
  have sound := loaded.drafting.sound
  have blank : w₂.known = .empty := known.trans h.known
  have index : w₂.index = .ofProject 0 := by
    rw [augments.index, Workspace.index, declaring.project]
    show ((w.store.addProject _).2.indexes.find? 0).getD default = _
    rw [h.store]
    rfl
  have plain : ∀ id, ((w.startProject ((Value.lookup "name" fields).getD (.str "project"))).store.node id).Plain := by
    obtain ⟨name, nodes⟩ := declaring.nodes
    intro id
    rw [Store.node, nodes]
    cases id <;> trivial
  have origin : Origin (g.upTo w₂.store.nodes.size) w₂ := by
    refine ⟨sound, rfl, loaded.drafting.unbound, tallied, blank, loaded.drafting.bare, augments.bindings, fun id => ?_,
      augments.plain plain⟩
    rw [index]
    rfl
  refine ⟨g.upTo w₂.store.nodes.size, ⟨sound, tracked_of_drafting loaded.drafting blank, loaded.programs⟩, origin,
    loaded.names, active, ?_, loaded.described⟩
  rw [settings]
  exact h.configured

/-- What reading the programs of a document into a new project comes to where nothing was loaded before. -/
def ProgramsRead (document : Value) (u : Workspace) : Prop :=
  ∃ source fields v, document = .object fields ∧ Fresh v ∧
    loadPrograms source ((Value.lookup "programs" fields).getD (.object []))
      (v.startProject ((Value.lookup "name" fields).getD (.str "project"))) = .ok () u

/-- What is known of a workspace after a document was loaded and before anything was resolved. -/
structure Ready (document : Value) (g : Ground) (w : Workspace) : Prop where
  sound : Sound g w
  tracked : Tracked g w
  names : g.names = symbolNames document
  inactive : w.active = none
  configured : w.settings.Configured
  modular : HasModules document → Modular g w
  described : Transparent document → ∀ {symbol}, symbol < g.top → (w.store.symbol symbol).description.isSome
  origin : ∃ u, ProgramsRead document u ∧ Origin g u ∧ Edits g (listedModules document) u w

/-- Loading a document leads to a sound workspace, unless it fails. -/
theorem load_meets (h : Fresh w) (source document : Value) :
    Meets (Document.load source document) w (fun _ w' => ∃ g, Ready document g w') Whatever := by
  unfold Document.load
  split
  · rename_i fields
    refine meets_bind (loadOptions_meets h _) fun _ w₁ fresh => ?_
    refine meets_bind (P := fun _ w' => w' = w₁.startProject ((Value.lookup "name" fields).getD (.str "project")))
      (meets_modify rfl) ?_
    rintro _ _ rfl
    refine meets_bind (fresh.supplied source fields).ran ?_
    rintro _ w₂ ⟨ran, g, supplied⟩
    refine meets_bind (loadContents_meets supplied.filling supplied.inactive source fields) fun _ w₃ filled => ?_
    obtain ⟨filling, inactive, symbols, settings, edits, modular⟩ := filled
    refine meets_modify ⟨g, filling.sound.quiet (quiet_report ..), filling.tracked.of_same rfl rfl, supplied.names,
      inactive, ?_, fun modules => ?_, fun transparent symbol lt => ?_, w₂, ⟨source, fields, w₁, rfl, fresh, ran⟩,
      supplied.origin, edits.trans (quiet_report ..).edits⟩
    · show w₃.settings.Configured
      rw [settings]
      exact supplied.configured
    · refine modular modules fun m mem => ?_
      obtain ⟨name, bare⟩ := supplied.origin.bare
      rw [Store.children, bare] at mem
      cases mem
    · show (w₃.store.symbol symbol).description.isSome
      rw [Store.symbol, symbols]
      exact supplied.described transparent lt
  · exact meets_throw trivial

end Document

open Document

namespace Workspace

variable {document : Value} {w : Workspace}

/-- What loading a document with the plugin, and setting options after that, leads to. -/
def Opened (document : Value) (w : Workspace) : Prop :=
  ∃ source options w₁, withPlugin.load source document = (.ok (), w₁) ∧ w₁.setOptions options = (.ok (), w)

/-- A load that succeeds is one that ran through. -/
theorem ran_of_load {u w : Workspace} {source document : Value} (loaded : u.load source document = (.ok (), w)) :
    Document.load source document u = .ok () w := by
  unfold load at loaded
  split at loaded
  · rename_i eq
    cases loaded
    exact eq
  · cases loaded

theorem loaded_of_isOk {u : Workspace} {source : Value} (ok : (u.load source document).1.isOk = true) :
    u.load source document = (.ok (), (u.load source document).2) := by
  generalize u.load source document = answer at ok
  obtain ⟨_ | _, w⟩ := answer
  · cases ok
  · rfl

theorem opened_of_isOk {source : Value} (ok : (withPlugin.load source document).1.isOk = true) :
    Opened document (withPlugin.load source document).2 :=
  ⟨source, [], _, loaded_of_isOk ok, rfl⟩

theorem Opened.ready (h : Opened document w) : ∃ g, Ready document g w := by
  obtain ⟨source, options, w₁, loaded, set⟩ := h
  obtain ⟨g, ready⟩ := (load_meets fresh_withPlugin source document).of_ok (ran_of_load loaded)
  have same := setOptions_same options w₁
  have configured := configured_setOptions options ready.configured
  rw [set] at same configured
  have quiet : Quiet { w₁ with settings := w.settings } w := by
    rw [show w = { w₁ with settings := w.settings, log := w.log } from same]
    exact ⟨rfl, rfl, rfl, rfl, rfl, rfl, rfl, fun here => here⟩
  have sound : Sound g { w₁ with settings := w.settings } := ready.sound.congr rfl rfl rfl
  obtain ⟨u, read, origin, edits⟩ := ready.origin
  have set : Alike w₁ { w₁ with settings := w.settings } := ⟨rfl, rfl, rfl, rfl⟩
  have known := congrArg Workspace.known same
  have tracked : Tracked g w := ready.tracked.of_same quiet.store known
  refine ⟨g, sound.quiet quiet, tracked, ready.names, quiet.active.trans ready.inactive, configured,
    fun modules m mem => ?_,
    fun transparent symbol lt => ?_, u, read, origin, (edits.trans set.edits).trans quiet.edits⟩
  · rw [quiet.store] at mem ⊢
    obtain ⟨name, children, eq, known⟩ := ready.modular modules m mem
    exact ⟨name, children, eq, fun some => quiet.known (known some)⟩
  · rw [quiet.store]
    exact ready.described transparent lt

end Workspace

end DocTree
