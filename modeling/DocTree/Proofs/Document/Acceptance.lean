import DocTree.Proofs.Document.Accepts
import DocTree.Proofs.Document.Provenance

/-!
# Which documents are accepted

* `setOptions_isOk_iff` : options can be set just if they are declared and take their values;
* `Stocked g programs w` : the programs of a document stand in their table, and modules and exports can be loaded;
* `Stocked.programNamed_iff`, `Stocked.convertExports_iff` : when programs and exports are found;
* `Stocked.loadModule_iff`, `Stocked.loadContents_iff` : when modules are loaded, and all contents of a document;
* `load_isOk_iff` : a document that is in shape is loaded just if it is acceptable.
-/

namespace DocTree

open Value (IsText OrNull)

/-! ## Options -/

namespace Settings

variable {s s' : Settings}

theorem exists_set_iff (name : String) (v : Value) :
    (∃ s', s.set (.str name) v = .ok s') ↔ Document.ValidOption s (name, v) := by
  constructor
  · rintro ⟨s', eq⟩
    obtain ⟨key, d, same, declared, admits, _⟩ := set_ok eq
    cases same
    exact ⟨d, declared, admits⟩
  · rintro ⟨d, declared, admits⟩
    refine ⟨{ s with values := s.values.insert (.text name) v }, ?_⟩
    unfold set declaration keyOf OptionDeclaration.validate
    simp only [Value.key?_str, declared, bind, Except.bind, pure, Except.pure]
    rw [if_pos admits]

end Settings

namespace Workspace

/-- Options can be set just if each of them can. -/
theorem setOptions_isOk_iff (options : List (String × Value)) (w : Workspace) :
    (w.setOptions options).1 = .ok () ↔ ∀ o ∈ options, Document.ValidOption w.settings o := by
  induction options generalizing w with
  | nil => exact iff_of_true rfl (List.forall_mem_nil _)
  | cons option options ih =>
    obtain ⟨name, v⟩ := option
    rw [List.forall_mem_cons, ← Settings.exists_set_iff]
    unfold setOptions setOption
    cases set : w.settings.set (.str name) v with
    | error e =>
      refine iff_of_false (by rintro ⟨⟩) ?_
      rintro ⟨⟨s', eq⟩, _⟩
      cases eq
    | ok s =>
      obtain ⟨_, _, _, _, _, rfl⟩ := Settings.set_ok set
      exact (ih _).trans (iff_and_self.2 fun _ => ⟨_, rfl⟩)

end Workspace

namespace Document

open Workspace

variable {g : Ground} {programs : List (String × Value)} {w w' : Workspace} {p : Program} {v : Value} {scope : NodeId}

theorem loadOptions_iff (options : List (String × Value)) (w : Workspace) :
    Succeeds (loadOptions (.object options)) w ↔ ∀ o ∈ options, ValidOption w.settings o := by
  rw [← setOptions_isOk_iff]
  have got : (get : Load Workspace) w = .ok w w := rfl
  unfold loadOptions
  rw [succeeds_bind_of_ok got]
  cases set : w.setOptions options with
  | mk answer w' =>
    cases answer with
    | ok => exact iff_of_true ⟨⟨⟩, w', rfl⟩ rfl
    | error e => exact iff_of_false (by rintro ⟨_, _, ⟨⟩⟩) (by rintro ⟨⟩)

/-! ## Programs and exports that are named -/

/-- The programs of a document stand in their table, and modules and exports can be loaded. -/
structure Stocked (g : Ground) (programs : List (String × Value)) (w : Workspace) : Prop where
  filling : Filling g w
  distinct : Distinct programs
  table : w.programs = tableOf (placed 0 programs) .empty

theorem isSome_find?_tableOf (distinct : Distinct programs) (name : String) :
    ((tableOf (placed 0 programs) .empty).find? (.text name)).isSome ↔ name ∈ programs.map Prod.fst := by
  rw [Option.isSome_iff_exists, ← map_placed 0 programs, List.mem_map]
  constructor
  · rintro ⟨p, found⟩
    obtain ⟨b, mem, same, _⟩ := (find?_tableOf distinct _ _).1 found
    cases same
    exact ⟨b, mem, rfl⟩
  · rintro ⟨b, mem, rfl⟩
    exact ⟨_, (find?_tableOf distinct _ _).2 ⟨b, mem, rfl, rfl⟩⟩

/-- A symbol is declared under a name just if its program lists the name. -/
theorem exists_denotes_iff (distinct : Distinct programs) (m : Mention) :
    (∃ X, Denotes programs m X) ↔ m.2 ∈ symbolsIn programs m.1 := by
  obtain ⟨program, name⟩ := m
  unfold symbolsIn
  constructor
  · rintro ⟨X, i, mem, eq⟩
    cases eq
    obtain ⟨q, listed, mem⟩ := List.mem_flatMap.1 (mem_of_mem_starts mem)
    obtain ⟨s, inside, rfl⟩ := List.mem_map.1 mem
    rw [lookup_of_mem distinct.names listed]
    exact List.mem_map_of_mem inside
  · intro mem
    cases here : Value.lookup program programs with
    | none =>
      rw [here] at mem
      cases mem
    | some v =>
      rw [here] at mem
      obtain ⟨s, inside, rfl⟩ := List.mem_map.1 mem
      have item : (⟨program, s.1, s.2⟩ : Item) ∈ (numbered 0 (items programs)).map Prod.fst := by
        rw [numbered, map_fst_starts]
        exact List.mem_flatMap.2 ⟨_, mem_of_lookup here, List.mem_map_of_mem inside⟩
      obtain ⟨⟨i, X⟩, numbered, rfl⟩ := List.mem_map.1 item
      exact ⟨X, _, numbered, rfl⟩

namespace Stocked

/-- A program is found if it is named, or the only one. -/
theorem programNamed_iff (h : Stocked g programs w) (path : Value) {name : Value} (form : OrNull IsText name) :
    Succeeds (programNamed path name) w ↔
      (∀ text, name = .str text → text ∈ programs.map Prod.fst) ∧ (name = .null → programs.length = 1) := by
  have got : (get : Load Workspace) w = .ok w w := rfl
  have length : w.programs.values.length = programs.length := by
    rw [← size_tableOf h.distinct, ← h.table]
    exact List.length_map _
  unfold programNamed
  rw [succeeds_bind_of_ok got]
  rcases form with rfl | ⟨text, rfl⟩
  · simp only [reduceCtorEq, false_implies, implies_true, true_and, forall_const]
    rw [← length]
    split
    · rename_i only
      rw [only]
      exact iff_of_true ⟨_, w, rfl⟩ rfl
    · rename_i several
      have none : Value.null.key?.bind w.programs.find? = none := by
        refine Option.eq_none_iff_forall_ne_some.2 fun p found => ?_
        obtain ⟨key, same, found⟩ := Option.bind_eq_some_iff.1 found
        rw [h.table] at found
        obtain ⟨b, _, rfl, _⟩ := (find?_tableOf h.distinct _ _).1 found
        cases same
      rw [none]
      refine iff_of_false (by rintro ⟨_, _, ⟨⟩⟩) fun one => ?_
      obtain ⟨p, only⟩ := List.length_eq_one_iff.1 one
      exact several p rfl only
  · simp only [Value.str.injEq, forall_eq', reduceCtorEq, false_implies, and_true]
    rw [← isSome_find?_tableOf h.distinct, ← h.table, Value.key?_str, Option.bind_some]
    cases w.programs.find? (.text text) with
    | none => exact iff_of_false (by rintro ⟨_, _, ⟨⟩⟩) Bool.false_ne_true
    | some p => exact iff_of_true ⟨p, w, rfl⟩ rfl

end Stocked

theorem exportNamed_iff (p : Program) (path name : Value) (w : Workspace) :
    Succeeds (exportNamed path p name) w ↔ ∃ X, NamesIn p name X := by
  unfold exportNamed NamesIn
  cases name.key? with
  | none => exact iff_of_false (by rintro ⟨_, _, ⟨⟩⟩) (by rintro ⟨X, ⟨⟩⟩)
  | some key =>
    simp only [Option.bind_some]
    cases p.symbols.find? key with
    | none => exact iff_of_false (by rintro ⟨_, _, ⟨⟩⟩) (by rintro ⟨X, ⟨⟩⟩)
    | some X => exact iff_of_true ⟨X, w, rfl⟩ ⟨X, rfl⟩

theorem convertNames_iff (below : Below p g.top) (path : Value) (names : List Value) (sound : Sound g w)
    (proper : g.Proper scope) (container : w.store.isContainer scope = true) (active : w.active.isSome) :
    Succeeds (convertNames scope path p names) w ↔ ∀ name ∈ names, ∃ X, NamesIn p name X := by
  induction names generalizing w with
  | nil => exact iff_of_true ⟨⟨⟩, w, rfl⟩ (List.forall_mem_nil _)
  | cons name names ih =>
    unfold convertNames
    rw [List.forall_mem_cons]
    refine succeeds_bind_iff (exportNamed_iff p path name w) fun X u found => ?_
    obtain ⟨rfl, named, _⟩ := (exportNamed_meets below path name).of_ok found
    have hosts : Hosts g u scope [X] := hosts_of_named sound proper container (by simpa using named)
    obtain ⟨w₁, converted, converts⟩ := convertSymbol_eq hosts active
    have spec := converts.spec hosts
    have twice : Hosts g u scope [X, X] := hosts_of_named sound proper container (by simpa using named)
    rw [succeeds_bind_of_ok converted]
    exact ih spec.sound (twice.rest spec.sound spec.ext).container (spec.ext.kept.active ▸ active)

/-! ## Modules and exports -/

theorem supplies_iff : Supplies programs v ↔
    ((∀ name, (Value.lookup "program" v.fields).getD .null = .str name → name ∈ programs.map Prod.fst) ∧
      ((Value.lookup "program" v.fields).getD .null = .null → programs.length = 1)) ∧
        ∀ m ∈ exportsOf programs v.fields, m.2 ∈ symbolsIn programs m.1 := by
  constructor
  · exact fun supplies => ⟨⟨supplies.program, supplies.only⟩, supplies.exports⟩
  · rintro ⟨⟨program, only⟩, exports⟩
    exact ⟨program, only, exports⟩

theorem ExportForm.program_getD (form : ExportForm v) : OrNull IsText ((Value.lookup "program" v.fields).getD .null) := by
  cases here : Value.lookup "program" v.fields with
  | none => exact Or.inl rfl
  | some x => exact form.program x here

namespace Stocked

/-- Exports are converted just if the program that was found lists them. -/
theorem convertExports_iff {u : Workspace} (h : Stocked g programs w) (form : ExportForm v) {path path' : Value}
    (found : programNamed path ((Value.lookup "program" v.fields).getD .null) w = .ok p w') (sound : Sound g u)
    (proper : g.Proper scope) (container : u.store.isContainer scope = true) :
    Succeeds (convertExports scope path' p (Value.lookup "exports" v.fields)) u ↔
      ∀ m ∈ exportsOf programs v.fields, m.2 ∈ symbolsIn programs m.1 := by
  obtain ⟨_, knows⟩ := knows_of_programNamed h.distinct h.table found
  obtain ⟨_, below⟩ := (programNamed_meets h.filling _ _).of_ok found
  obtain ⟨listed, texts⟩ := listed_eq form.exports
  have activated : (modify (·.activate (some p.name)) : Load PUnit) u = .ok ⟨⟩ (u.activate (some p.name)) := rfl
  have names := convertNames_iff below path' (partsOf (Value.lookup "exports" v.fields)) (sound.activate (some p.name))
    proper container rfl
  unfold convertExports
  rw [succeeds_bind_of_ok activated, listed, pure_bind]
  refine (succeeds_bind_iff names fun _ u' _ => endsWell_modify _ u').trans ?_
  rw [and_true]
  constructor
  · intro all m mem
    obtain ⟨text, inside, rfl⟩ := List.mem_map.1 mem
    obtain ⟨name, here, same⟩ := List.mem_filterMap.1 inside
    obtain ⟨_, rfl⟩ := texts name here
    cases same
    obtain ⟨X, stands⟩ := all _ here
    exact (exists_denotes_iff h.distinct _).1 ⟨X, (knows.find?_iff text).1 stands⟩
  · intro all name here
    obtain ⟨text, rfl⟩ := texts name here
    have mem : text ∈ (partsOf (Value.lookup "exports" v.fields)).filterMap Value.string? :=
      List.mem_filterMap.2 ⟨_, here, rfl⟩
    obtain ⟨X, denotes⟩ := (exists_denotes_iff h.distinct _).2 (all _ (List.mem_map_of_mem mem))
    exact ⟨X, (knows.find?_iff text).2 denotes⟩

/-- A module is loaded just if its entry is in order. -/
theorem loadModule_iff (h : Stocked g programs w) (path : String) (form : ModuleForm v) :
    Succeeds (loadModule path v) w ↔ Supplies programs v := by
  obtain ⟨name, here⟩ := form.name
  cases v with
  | object fields =>
    have here : Value.lookup "name" fields = some (.str name) := here
    unfold loadModule
    simp only [here]
    refine (succeeds_bind_iff (h.programNamed_iff _ form.program_getD) fun p u found => ?_).trans supplies_iff.symm
    obtain ⟨rfl, _⟩ := (programNamed_meets h.filling _ _).of_ok found
    have made := h.filling.createModule_eq p.name (.str name)
    obtain ⟨filled, above, _, container⟩ := (createModule_meets h.filling p.name (.str name)).of_ok made
    rw [succeeds_bind_of_ok made]
    exact h.convertExports_iff form.toExportForm found filled.filling.sound (Or.inr above) container
  | _ => cases here

theorem next (h : Stocked g programs w) {path : String} (eq : loadModule path v w = .ok () w') :
    Stocked g programs w' := by
  have adds := h.filling.adds (h.table ▸ titled_tableOf programs) eq
  exact ⟨adds.filling, h.distinct, adds.table.trans h.table⟩

theorem loadModules_iff (h : Stocked g programs w) (source : Value) (i : Nat) {ts : List Value}
    (form : ∀ t ∈ ts, ModuleForm t) : Succeeds (loadModules source i ts) w ↔ ∀ t ∈ ts, Supplies programs t := by
  induction ts generalizing w i with
  | nil => exact iff_of_true ⟨⟨⟩, w, rfl⟩ (List.forall_mem_nil _)
  | cons t ts ih =>
    obtain ⟨first, form⟩ := List.forall_mem_cons.1 form
    unfold loadModules
    rw [List.forall_mem_cons]
    exact succeeds_bind_iff (h.loadModule_iff _ first) fun _ u eq => ih (h.next eq) (i + 1) form

/-- The contents of a document are loaded just if all that says what is exported is in order. -/
theorem loadContents_iff {fields : List (String × Value)} (h : Stocked g programs w) (source : Value)
    (shaped : Shaped (.object fields)) : Succeeds (loadContents source fields) w ↔
      (modulesOf fields = none → Supplies programs (.object fields)) ∧
        ∀ ts, modulesOf fields = some ts → ∀ t ∈ ts, Supplies programs t := by
  have form := shaped.modules
  unfold loadContents modulesOf
  have list : (Value.lookup "modules" fields).getD .null = .null ∨
      ∃ ts, (Value.lookup "modules" fields).getD .null = .list ts ∧ ∀ t ∈ ts, ModuleForm t := by
    cases here : Value.lookup "modules" fields with
    | none => exact Or.inl rfl
    | some x => exact form x here
  rcases list with none | ⟨ts, some, all⟩
  · simp only [none, forall_const, reduceCtorEq, false_implies, and_true]
    refine (succeeds_bind_iff (h.programNamed_iff _ shaped.program_getD) fun p u found => ?_).trans supplies_iff.symm
    obtain ⟨rfl, _⟩ := (programNamed_meets h.filling _ _).of_ok found
    have got : (get : Load Workspace) u = .ok u u := rfl
    rw [succeeds_bind_of_ok got, h.filling.sound.project]
    exact h.convertExports_iff shaped.toExportForm found h.filling.sound (Or.inl rfl) h.filling.isContainer_project
  · simp only [some, reduceCtorEq, false_implies, true_and, Option.some.injEq, forall_eq']
    exact h.loadModules_iff source 0 all

end Stocked

/-! ## Documents -/

theorem Fresh.stocked (h : Fresh w) {fields : List (String × Value)} (distinct : Distinct (programsOf fields))
    (object : (Value.lookup "programs" fields).getD (.object []) = .object (programsOf fields)) {source : Value}
    (eq : loadPrograms source (.object (programsOf fields))
      (w.startProject ((Value.lookup "name" fields).getD (.str "project"))) = .ok () w') :
    ∃ g, Stocked g (programsOf fields) w' := by
  obtain ⟨g, supplied⟩ := (h.supplied source fields).of_ok (object ▸ eq)
  exact ⟨g, supplied.filling, distinct, programs_of_loadPrograms (h.started _) eq⟩

theorem kinds_and_legible_iff : ((∀ p ∈ programs, ∀ s ∈ programSpecs p.2, (statedKind? s.2).isSome) ∧
      ∀ p ∈ programs, ∀ s ∈ programSpecs p.2, isOpaque s.2 = false → Legible s.2) ↔
    (∀ p ∈ programs, ∀ s ∈ programSpecs p.2, (statedKind? s.2).isSome) ∧
      ∀ p ∈ programs, ∀ s ∈ programSpecs p.2, isOpaque s.2 = false → Describable s.2 := by
  refine and_congr_right fun kinds => forall₂_congr fun p mem => forall₂_congr fun s inside => ?_
  exact imp_congr_right fun _ => (describable_iff.trans (and_iff_right (kinds p mem s inside))).symm

theorem acceptable_iff {settings : Settings} {fields : List (String × Value)} :
    Acceptable settings (.object fields) ↔
      (∀ o ∈ fieldsOf (Value.lookup "options" fields), ValidOption settings o) ∧
        ((∀ p ∈ programsOf fields, ∀ s ∈ programSpecs p.2, (statedKind? s.2).isSome) ∧
          ∀ p ∈ programsOf fields, ∀ s ∈ programSpecs p.2, isOpaque s.2 = false → Describable s.2) ∧
        ((modulesOf fields = none → Supplies (programsOf fields) (.object fields)) ∧
          ∀ ts, modulesOf fields = some ts → ∀ t ∈ ts, Supplies (programsOf fields) t) := by
  constructor
  · exact fun h => ⟨h.options, ⟨h.kinds, h.symbols⟩, h.exports, h.modules⟩
  · rintro ⟨options, ⟨kinds, symbols⟩, exports, modules⟩
    exact ⟨options, kinds, symbols, exports, modules⟩

theorem load_iff (fresh : Fresh w) (source : Value) {document : Value} (shaped : Shaped document) :
    Succeeds (load source document) w ↔ Acceptable w.settings document := by
  obtain ⟨fields, rfl⟩ := shaped.object
  have options : (Value.lookup "options" fields).getD (.object []) = _ := getD_eq_object shaped.options
  have object : (Value.lookup "programs" fields).getD (.object []) = .object (programsOf fields) :=
    getD_eq_object fun x here => (shaped.programs x here).isObject
  have parts := forall_mem_fieldsOf shaped.programs
  unfold load
  simp only [options, object]
  rw [acceptable_iff, ← kinds_and_legible_iff]
  refine succeeds_bind_iff (loadOptions_iff _ w) fun _ w₁ configured => ?_
  have fresh₁ : Fresh w₁ := (loadOptions_meets fresh _).of_ok configured
  have begun : (modify (·.startProject ((Value.lookup "name" fields).getD (.str "project"))) : Load PUnit) w₁ =
    .ok ⟨⟩ (w₁.startProject ((Value.lookup "name" fields).getD (.str "project"))) := rfl
  rw [succeeds_bind_of_ok begun]
  refine succeeds_bind_iff (loadPrograms_endsWell source parts shaped.symbols _) fun _ w₂ declared => ?_
  obtain ⟨g, stocked⟩ := fresh₁.stocked shaped.distinct object declared
  refine (succeeds_bind_iff (stocked.loadContents_iff source shaped) fun _ w₃ _ => endsWell_modify _ w₃).trans ?_
  exact and_iff_left trivial

end Document

/-- Exactly the acceptable documents are loaded. Of the documents that have the documented shape, those are loaded
of which all options are declared and take their values; all kinds are known, and all type expressions can be read,
wherever symbols are not opaque; and all programs and exports that are named are there. -/
theorem Workspace.load_isOk_iff {w : Workspace} (fresh : Document.Fresh w) (source : Value) {document : Value}
    (shaped : Document.Shaped document) :
    (w.load source document).1.isOk = true ↔ Document.Acceptable w.settings document := by
  rw [← Document.load_iff fresh source shaped]
  unfold load
  cases eq : (Document.load source document).run w with
  | ok a w' => exact iff_of_true rfl ⟨a, w', eq⟩
  | error e w' =>
    refine iff_of_false (by rintro ⟨⟩) ?_
    rintro ⟨_, _, eq'⟩
    cases eq.symm.trans eq'

/-- A kind that is not known matters at any depth, while the types of opaque symbols do not. -/
theorem Workspace.load_isOk_iff_deep : Document.Acceptable withPlugin.settings (Document.deep "interface") ∧
    ¬ Document.Acceptable withPlugin.settings (Document.deep "nonsense") := by
  refine ⟨?_, fun acceptable => ?_⟩
  · exact (load_isOk_iff Document.fresh_withPlugin (.str "demo") (Document.shaped_deep _)).1 (by decide +kernel)
  · have loaded := (load_isOk_iff Document.fresh_withPlugin (.str "demo") (Document.shaped_deep _)).2 acceptable
    exact absurd loaded (by decide +kernel)

end DocTree
