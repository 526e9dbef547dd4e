import DocTree.Proofs.Faithful.Mentions
import DocTree.Proofs.Renumber.Programs

/-!
# Which program a module comes from

* `Titled programs table` : programs stand in a table under their names; `titled_of_loadPrograms`;
* `programOf programs t` : the name of the program that an entry of a document means; `name_of_programNamed` : it is the
  one that is found;
* `Converts.find?_known` : conversion says of its scope that it comes from the active program, and nothing of others
  that were there before;
* `Stems programs w t m` : a module that is loaded as its entry says, and known to come from the program of the entry;
* `Receives g program m w w'` : a node gets exports that come from a program; `Filling.receives`;
* `Filling.adds`, `Filling.stems` : so is each module when it is loaded, and it stays so;
* `Provenance document entries w` : all modules of a document are; `Opened.provenance`.
-/

namespace DocTree

open Workspace

namespace Document

variable {g : Ground} {programs fields : List (String × Value)} {w w₁ w' : Workspace} {m scope id : NodeId} {t : Value}
  {p : Program} {symbols : List SymbolId} {table : OrdMap Value.Key Program}

/-! ## Programs by name -/

/-- Programs stand in a table under their names, and no others do. -/
structure Titled (programs : List (String × Value)) (table : OrdMap Value.Key Program) : Prop where
  named : ∀ {key p}, table.find? key = some p → ∃ q ∈ programs, key = .text q.1 ∧ p.name = .str q.1
  listed : ∀ q ∈ programs, (table.find? (.text q.1)).isSome

theorem titled_tableOf (programs : List (String × Value)) : Titled programs (tableOf (placed 0 programs) .empty) := by
  have whole : ∀ (blocks : List ((String × Value) × SymbolId)) (table : OrdMap Value.Key Program),
      (∀ {key p}, (tableOf blocks table).find? key = some p →
        table.find? key = some p ∨ ∃ b ∈ blocks, key = .text b.1.1 ∧ p.name = .str b.1.1) ∧
      (∀ {key}, (table.find? key).isSome ∨ (∃ b ∈ blocks, key = .text b.1.1) →
        ((tableOf blocks table).find? key).isSome) := by
    intro blocks
    induction blocks with
    | nil => exact fun table => ⟨Or.inl, fun here => here.resolve_right nofun⟩
    | cons b blocks ih =>
      intro table
      obtain ⟨named, listed⟩ := ih (table.insert (.text b.1.1) (programAt b.1 b.2))
      refine ⟨fun {key p} found => ?_, fun {key} here => listed ?_⟩
      · rcases named found with before | ⟨c, mem, here⟩
        · rw [OrdMap.find?_insert] at before
          split at before
          · rename_i here
            cases before
            exact Or.inr ⟨b, List.mem_cons_self, here, name_programAt b.1 b.2⟩
          · exact Or.inl before
        · exact Or.inr ⟨c, List.mem_cons_of_mem _ mem, here⟩
      · rw [OrdMap.find?_insert]
        rcases here with before | ⟨c, mem, here⟩
        · left
          split
          · rfl
          · exact before
        · rcases List.mem_cons.1 mem with rfl | mem
          · left
            rw [if_pos here]
            rfl
          · exact Or.inr ⟨c, mem, here⟩
  obtain ⟨named, listed⟩ := whole (placed 0 programs) .empty
  constructor
  · intro key p found
    rcases named found with before | ⟨b, mem, here⟩
    · cases before
    · exact ⟨b.1, mem_of_mem_starts mem, here⟩
  · intro q mem
    have name : q.1 ∈ (placed 0 programs).map (·.1.1) := map_placed 0 programs ▸ List.mem_map_of_mem mem
    obtain ⟨b, inside, same⟩ := List.mem_map.1 name
    exact listed (Or.inr ⟨b, inside, by rw [same]⟩)

theorem programs_of_loadPrograms (started : Started w) {source : Value}
    (eq : loadPrograms source (.object programs) w = .ok () w') : w'.programs = tableOf (placed 0 programs) .empty := by
  have declares : ∀ p ∈ programs, Declares p.2 := by
    obtain ⟨ps, w₁, declared, _⟩ := bind_ok eq
    exact declares_of_declarePrograms declared
  rw [started.loadPrograms_eq declares] at eq
  obtain ⟨E, _, _, _, rfl⟩ := entries_of_describeTasks eq
  rw [filled_eq]
  rfl

theorem titled_of_loadPrograms (started : Started w) {source v : Value} (eq : loadPrograms source v w = .ok () w') :
    ∃ programs, v = .object programs ∧ Titled programs w'.programs := by
  cases v with
  | object programs => exact ⟨programs, rfl, programs_of_loadPrograms started eq ▸ titled_tableOf programs⟩
  | _ => cases eq

/-- The name of the program that an entry means. -/
def programOf (programs : List (String × Value)) (t : Value) : Value :=
  .str (programMeant programs ((Value.lookup "program" t.fields).getD .null))

/-- The program that is found is the one that is meant. -/
theorem name_of_programNamed (titled : Titled programs w.programs) {path name : Value}
    (eq : programNamed path name w = .ok p w') : w' = w ∧ p.name = .str (programMeant programs name) := by
  obtain ⟨rfl, ⟨rfl, only⟩ | ⟨key, known, here⟩⟩ := found_of_programNamed eq
  · obtain ⟨key, here⟩ := exists_key_of_programNamed eq
    obtain ⟨q, mem, rfl, named⟩ := titled.named here
    refine ⟨rfl, ?_⟩
    cases programs with
    | nil => cases mem
    | cons first others =>
      obtain ⟨p', found⟩ := Option.isSome_iff_exists.1 (titled.listed first List.mem_cons_self)
      obtain ⟨entry, eq⟩ := List.map_eq_singleton_iff.1 only
      rw [OrdMap.find?_eq_some_iff, eq.1] at here found
      obtain ⟨key, _⟩ := Prod.mk.inj ((List.mem_singleton.1 here).trans (List.mem_singleton.1 found).symm)
      rw [named, Value.Key.text.inj key]
      rfl
  · obtain ⟨q, _, rfl, named⟩ := titled.named here
    rw [eq_str_of_key? known]
    exact ⟨rfl, named⟩

end Document

/-! ## What conversion says -/

/-- Conversion says of its scope that it comes from the active program, and nothing of others that were there
before. -/
theorem Workspace.Converts.find?_known {g : Ground} {w w' : Workspace} {scope id : NodeId} {symbols : List SymbolId}
    {program : Value} (converts : Converts w scope symbols w') (hosts : Hosts g w scope symbols)
    (active : w.active = some program) (inside : id < w.store.nodes.size) :
    w'.known.find? id = w.known.find? id ∨ (id = scope ∧ w'.known.find? id = some program) := by
  induction converts with
  | nil => exact Or.inl rfl
  | known _ _ ih => exact ih (hosts.rest hosts.sound ((Quiet.refl _).extends _)) active inside
  | @undescribed w w' scope symbol symbols _ none _ ih =>
    have q := quiet_report w .debug .conversion ((w.store.symbol symbol).display ++ " has no declaration, skipping")
    exact ih ((hosts.rest hosts.sound ((Quiet.refl w).extends scope)).quiet q) active inside
  | @fresh w w₁ w' scope symbol symbols d unbound described members rest ih ih' =>
    rw [hosts.sound.declarationOf?_eq] at unbound
    have declared := declared_declare w hosts.inside symbol d
    have q := quiet_announce (w.declare scope symbol d).2 scope w.store.nodes.size
    have active' : (w.declare scope symbol d).2.active = some program := declared.kept.active.trans active
    have below := (hosts.declared unbound described).quiet q
    have inner := members.spec below
    have both := Converted.with_owner hosts unbound described inner
    have larger : w.store.nodes.size < ((w.declare scope symbol d).2.announce scope w.store.nodes.size).store.nodes.size :=
      q.store ▸ declared.sprouts.size
    have announced := (ih below (q.active.trans active') (Nat.lt_trans inside larger)).resolve_right
      fun here => absurd here.1 (Nat.ne_of_lt inside)
    rw [find?_known_announce (declared.kept.listeners.trans hosts.sound.plugin) _ _ active', known_declare] at announced
    rcases ih' (hosts.rest inner.sound both) (both.kept.active.trans active) (Nat.lt_of_lt_of_le inside both.size) with
      same | here
    · rw [same, announced]
      split
      · rename_i marked
        exact Or.inr ⟨marked.1, rfl⟩
      · exact Or.inl rfl
    · exact Or.inr here

namespace Document

variable {g : Ground} {programs fields : List (String × Value)} {w w₁ w' : Workspace} {m scope id : NodeId} {t : Value}
  {p : Program} {symbols : List SymbolId} {source document : Value}

/-! ## Modules -/

/-- A module that is loaded as its entry says: it has its name, and if it holds anything, it is known to come from its
program. -/
structure Stems (programs : List (String × Value)) (w : Workspace) (t : Value) (m : NodeId) : Prop where
  kind : (w.store.node m).kind = .module
  name : (w.store.node m).name = (Value.lookup "name" t.fields).getD .null
  known : w.store.children m ≠ [] → w.known.find? m = some (programOf programs t)

theorem Stems.congr (h : Stems programs w t m) (node : w'.store.node m = w.store.node m)
    (known : w'.known.find? m = w.known.find? m) : Stems programs w' t m where
  kind := node ▸ h.kind
  name := node ▸ h.name
  known := fun some => known.trans (h.known (by rwa [Store.children, ← node]))

/-- A new module is put below the project, which comes from its program by now; other nodes stay. -/
structure Adds (g : Ground) (programs : List (String × Value)) (t : Value) (w w' : Workspace) : Prop where
  filling : Filling g w'
  table : w'.programs = w.programs
  size : w.store.nodes.size < w'.store.nodes.size
  children : w'.store.children g.project = w.store.children g.project ++ [w.store.nodes.size]
  project : w'.known.find? g.project = some (programOf programs t)
  stems : Stems programs w' t w.store.nodes.size
  node : ∀ {id}, id < w.store.nodes.size → id ≠ g.project → w'.store.node id = w.store.node id
  known : ∀ {id}, id < w.store.nodes.size → id ≠ g.project → w'.known.find? id = w.known.find? id

theorem Filling.find?_known_withModule (h : Filling g w) (program name : Value) (id : NodeId) :
    (Document.withModule w program name).known.find? id = if id = g.project then some program else w.known.find? id := by
  have kept := kept_create (w.activate (some program)) g.project .module name none
  have inside : g.project < (w.activate (some program)).store.nodes.size := h.sound.layout.project_lt_size
  have tracked : (((w.activate (some program)).create g.project .module name none).2.store.node g.project).isKind
      trackedKinds = true := by
    rw [node_create .module name none inside, if_neg (Nat.ne_of_lt inside), if_pos rfl]
    exact h.tracked.project
  unfold Document.withModule
  rw [h.sound.project]
  refine (find?_known_announce (kept.listeners.trans h.sound.plugin) _ _ kept.active id).trans ?_
  simp only [tracked, and_true]
  rfl

/-- A node gets exports, which come from a program; other nodes stay. -/
structure Receives (g : Ground) (program : Value) (m : NodeId) (w w' : Workspace) : Prop where
  filling : Filling g w'
  table : w'.programs = w.programs
  size : w.store.nodes.size ≤ w'.store.nodes.size
  widened : ∃ ids, w'.store.node m = (w.store.node m).giveChildren ids
  known : w'.known.find? m = w.known.find? m ∨ w'.known.find? m = some program
  frame : ∀ {id}, id < w.store.nodes.size → id ≠ m →
    w'.store.node id = w.store.node id ∧ w'.known.find? id = w.known.find? id

theorem Filling.receives (h : Filling g w) (below : Below p g.top) (proper : g.Proper m)
    (container : w.store.isContainer m = true) (way : w.store.Reaches g.project m) {path : Value} {exports : Option Value}
    (eq : convertExports m path p exports w = .ok () w') : Receives g p.name m w w' := by
  obtain ⟨_, symbols, w₃, _, _, named, converts, rfl⟩ :=
    (convertExports_meets below _ _ h.sound proper container).of_ok eq
  have hosts := hosts_of_named (h.sound.activate (some p.name)) proper container named
  have ext := (converts.spec hosts).ext
  have known : ∀ {id}, id < w.store.nodes.size → w₃.known.find? id = w.known.find? id ∨
      (id = m ∧ w₃.known.find? id = some p.name) := converts.find?_known hosts rfl
  obtain ⟨ids, _, widened⟩ := ext.widened
  refine ⟨(filled_of_exports h proper container named way converts).1, ext.kept.programs, ext.size, ⟨ids, widened⟩,
    (known (Store.lt_of_isContainer container)).imp id And.right, fun inside other => ⟨ext.same inside other, ?_⟩⟩
  exact (known inside).resolve_right fun here => other here.1

/-- A new module that gets exports is added as its entry says. -/
theorem Filling.adds_of_receives (h : Filling g w) {name : Value}
    (called : (Value.lookup "name" t.fields).getD .null = name)
    (receives : Receives g (programOf programs t) w.store.nodes.size
      (Document.withModule w (programOf programs t) name) w') : Adds g programs t w w' := by
  obtain ⟨grown, _, kept, node⟩ := h.withModule (programOf programs t) name
  have marks := h.find?_known_withModule (programOf programs t) name
  have project : g.project < w.store.nodes.size := h.sound.layout.project_lt_size
  have frame : ∀ {id}, id < w.store.nodes.size → w'.store.node id = (Document.withModule w _ name).store.node id ∧
      w'.known.find? id = (Document.withModule w _ name).known.find? id := fun inside =>
    receives.frame (Nat.lt_trans inside grown.size) (Nat.ne_of_lt inside)
  obtain ⟨ids, widened⟩ := receives.widened
  rw [node] at widened
  refine ⟨receives.filling, receives.table.trans kept.programs, Nat.lt_of_lt_of_le grown.size receives.size, ?_, ?_,
    ⟨?_, ?_, fun some => ?_⟩, fun inside other => ?_, fun inside other => ?_⟩
  · rw [Store.children, (frame project).1]
    exact (grown.children h.isContainer_project g.project).trans (if_pos rfl)
  · exact (frame project).2.trans ((marks g.project).trans (if_pos rfl))
  · rw [widened]
    rfl
  · rw [widened, called]
    rfl
  · refine receives.known.resolve_left fun same => ?_
    have unknown := (marks w.store.nodes.size).trans (if_neg (Nat.ne_of_gt project))
    have marked := receives.filling.tracked.marked (Or.inr h.sound.layout.base_le) (by
      rw [widened]
      show Kind.module.meets trackedKinds = true
      decide) some
    rw [same, unknown] at marked
    exact absurd (Store.children_of_size_le (Nat.le_refl _)) (h.tracked.holds marked)
  · exact (frame inside).1.trans (grown.same inside other)
  · exact (frame inside).2.trans ((marks _).trans (if_neg other))

/-- Loading a module adds it as its entry says. -/
theorem Filling.adds (h : Filling g w) (titled : Titled programs w.programs) {path : String}
    (eq : loadModule path t w = .ok () w') : Adds g programs t w w' := by
  cases t with
  | object fields =>
    unfold loadModule at eq
    simp only at eq
    cases here : Value.lookup "name" fields with
    | none =>
      rw [here] at eq
      cases eq
    | some name =>
      simp only [here] at eq
      obtain ⟨p, w, found, rest⟩ := bind_ok eq
      obtain ⟨rfl, called⟩ := name_of_programNamed titled found
      obtain ⟨_, below⟩ := (programNamed_meets h _ _).of_ok found
      have made := h.createModule_eq p.name name
      obtain ⟨filled, above, mem, container⟩ := (createModule_meets h p.name name).of_ok made
      rw [bind_of_ok made] at rest
      have way : (Document.withModule w p.name name).store.Reaches g.project w.store.nodes.size :=
        .single (Node.mem_successors.2 (Or.inl (Node.mem_parts_of_mem_children mem)))
      have receives := filled.filling.receives below (Or.inr above) container way rest
      rw [called] at receives
      have named : (Value.lookup "name" (Value.object fields).fields).getD .null = name :=
        congrArg (fun v : Option Value => v.getD .null) here
      exact h.adds_of_receives named receives
  | _ => cases eq

/-- Loading modules adds them as their entries say. -/
theorem Filling.stems (h : Filling g w) (titled : Titled programs w.programs) {i : Nat} {ts : List Value}
    (eq : loadModules source i ts w = .ok () w') : ∃ ms,
      w'.store.children g.project = w.store.children g.project ++ ms ∧ List.Forall₂ (Stems programs w') ts ms ∧
      (∀ t ∈ ts.getLast?, w'.known.find? g.project = some (programOf programs t)) ∧
      ∀ {id}, id < w.store.nodes.size → id ≠ g.project →
        w'.store.node id = w.store.node id ∧ w'.known.find? id = w.known.find? id := by
  induction ts generalizing w i with
  | nil =>
    cases eq
    exact ⟨[], (List.append_nil _).symm, .nil, nofun, fun _ _ => ⟨rfl, rfl⟩⟩
  | cons t ts ih =>
    obtain ⟨⟨⟩, w₁, first, rest⟩ := bind_ok eq
    have adds := h.adds titled first
    obtain ⟨ms, children, stems, last, frame⟩ := ih adds.filling (adds.table ▸ titled) rest
    obtain ⟨node, known⟩ := frame adds.size (h.sound.layout.ne_project h.sound.layout.base_le)
    refine ⟨w.store.nodes.size :: ms, ?_, .cons (adds.stems.congr node known) stems, fun t' mem => ?_,
      fun {id} inside other => ?_⟩
    · rw [children, adds.children, List.append_assoc]
      rfl
    · cases ts with
      | nil =>
        cases rest
        cases mem
        exact adds.project
      | cons => exact last t' mem
    · obtain ⟨node, known⟩ := frame (Nat.lt_trans inside adds.size) other
      exact ⟨node.trans (adds.node inside other), known.trans (adds.known inside other)⟩

/-- All modules are loaded as the entries of a document say, and the project is known to come from the program of the
last one. -/
structure Provenance (document : Value) (entries : List Value) (w : Workspace) : Prop where
  inactive : w.active = none
  modules : List.Forall₂ (Stems (programsOf document.fields) w) entries (w.store.children w.project)
  project : ∀ t ∈ entries.getLast?, w.known.find? w.project = some (programOf (programsOf document.fields) t)

/-- After loading, each module is known to come from its program. -/
theorem provenance_of_load {entries : List Value} (fresh : Fresh w) (eq : load source document w = .ok () w')
    (listed : Value.lookup "modules" document.fields = some (.list entries)) : Provenance document entries w' := by
  cases document with
  | object fields =>
    unfold load at eq
    obtain ⟨⟨⟩, w₁, configured, eq₁⟩ := bind_ok eq
    obtain ⟨⟨⟩, _, begun, eq₂⟩ := bind_ok eq₁
    cases begun
    obtain ⟨⟨⟩, w₂, declared, eq₃⟩ := bind_ok eq₂
    obtain ⟨⟨⟩, w₃, contents, eq₄⟩ := bind_ok eq₃
    cases eq₄
    have fresh : Fresh w₁ := (loadOptions_meets fresh _).of_ok configured
    obtain ⟨g, supplied⟩ := (fresh.supplied source fields).of_ok declared
    have filling := supplied.filling
    obtain ⟨programs, object, titled⟩ := titled_of_loadPrograms (fresh.started _) declared
    have same : programsOf fields = programs := by
      unfold programsOf fieldsOf
      cases here : Value.lookup "programs" fields with
      | none =>
        rw [here] at object
        cases object
        rfl
      | some v =>
        rw [here] at object
        cases object
        rfl
    obtain ⟨filled, inactive, _⟩ := (loadContents_meets filling supplied.inactive source fields).of_ok contents
    have listed : Value.lookup "modules" fields = some (.list entries) := listed
    unfold loadContents at contents
    simp only [listed, Option.getD_some] at contents
    obtain ⟨_, _, parts, modules⟩ := bind_ok contents
    cases parts
    obtain ⟨ms, children, stems, last, _⟩ := filling.stems titled modules
    have bare : w₂.store.children g.project = [] := by
      obtain ⟨name, bare⟩ := supplied.origin.bare
      rw [Store.children, bare]
      rfl
    have below : w₃.store.children w₃.project = ms := by
      rw [filled.sound.project, children, bare, List.nil_append]
    subst same
    refine ⟨inactive, ?_, fun t mem => ?_⟩
    · show List.Forall₂ _ entries (w₃.store.children w₃.project)
      rw [below]
      exact stems.imp fun _ _ here => here.congr rfl rfl
    · show w₃.known.find? w₃.project = _
      rw [filled.sound.project]
      exact last t mem
  | _ => cases eq

end Document

/-- Options that are set after loading leave this alone. -/
theorem Workspace.Opened.provenance {w : Workspace} {document : Value} {entries : List Value}
    (opened : w.Opened document) (listed : Value.lookup "modules" document.fields = some (.list entries)) :
    Document.Provenance document entries w := by
  obtain ⟨source, options, w₁, loaded, set⟩ := opened
  have same := setOptions_same options w₁
  rw [set] at same
  have same : w = { w₁ with settings := w.settings, log := w.log } := same
  have ran := ran_of_load loaded
  obtain ⟨inactive, modules, project⟩ := Document.provenance_of_load Document.fresh_withPlugin ran listed
  rw [same]
  exact ⟨inactive, modules.imp fun _ _ here => here.congr rfl rfl, project⟩

end DocTree
