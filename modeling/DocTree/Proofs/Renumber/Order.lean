import DocTree.Proofs.Renumber.Output
import DocTree.Proofs.Renumber.Programs
import DocTree.Proofs.Resolve.Reached

/-!
# The order of declarations

Documents that list programs and symbols in another order describe the same project: all that differs are numbers.

* `Reordered document document'` : the documents differ in the order of programs and of their symbols;
* `load_mirror` : both are loaded, to workspaces that mirror each other;
* `Workspace.SameProject` : trees, missing symbols and symbols are the same under other numbers;
* `same_of_reordered` : whatever is done with both, the answers and the projects are alike.
-/

namespace DocTree

namespace Document

/-! ## Documents -/

/-- Objects that only differ in what they hold under `key`, which is related by `R`. -/
def SameBut (key : String) (R : Value → Value → Prop) : Value → Value → Prop
  | .object fields, .object fields' =>
    List.Forall₂ (fun f f' => f'.1 = f.1 ∧ if f.1 = key then R f.2 f'.2 else f'.2 = f.2) fields fields'
  | _, _ => False

/-- Objects with the same fields in another order. The fields have names of their own, as in every object that is read. -/
def Shuffled : Value → Value → Prop
  | .object fields, .object fields' => (fields.map Prod.fst).Nodup ∧ fields.Perm fields'
  | _, _ => False

/-- The same programs in another order, each with its symbols in another order. -/
def ShuffledPrograms : Value → Value → Prop
  | .object programs, .object programs' => (programs.map Prod.fst).Nodup ∧ ∃ between, programs.Perm between ∧
      List.Forall₂ (fun p p' => p'.1 = p.1 ∧ SameBut "symbols" Shuffled p.2 p'.2) between programs'
  | _, _ => False

/-- The same document with programs and their symbols in another order. -/
def Reordered : Value → Value → Prop := SameBut "programs" ShuffledPrograms

variable {key : String} {R : Value → Value → Prop} {fields fields' programs programs' : List (String × Value)}

theorem SameBut.lookup_of_ne (h : SameBut key R (.object fields) (.object fields')) {other : String} (ne : other ≠ key) :
    Value.lookup other fields' = Value.lookup other fields := by
  change List.Forall₂ _ fields fields' at h
  induction h with
  | nil => rfl
  | @cons f f' rest rest' here _ ih =>
    unfold Value.lookup
    rw [here.1, ih]
    split
    · rename_i name
      have same := here.2
      rw [if_neg (name ▸ ne)] at same
      rw [same]
    · rfl

theorem SameBut.lookup_key (h : SameBut key R (.object fields) (.object fields')) {v : Value} (default : R v v) :
    R ((Value.lookup key fields).getD v) ((Value.lookup key fields').getD v) := by
  change List.Forall₂ _ fields fields' at h
  induction h with
  | nil => exact default
  | @cons f f' rest rest' here _ ih =>
    unfold Value.lookup
    rw [here.1]
    split
    · rename_i name
      have related := here.2
      rwa [if_pos name] at related
    · exact ih

theorem Shuffled.object {v v' : Value} (h : Shuffled v v') :
    ∃ L L', v = .object L ∧ v' = .object L' ∧ (L.map Prod.fst).Nodup ∧ L.Perm L' := by
  cases v with
  | object L =>
    cases v' with
    | object L' => exact ⟨L, L', rfl, rfl, h⟩
    | _ => exact h.elim
  | _ => exact h.elim

theorem programSpecs_of_object {symbols : List (String × Value)}
    (eq : (Value.lookup "symbols" fields).getD (.object []) = .object symbols) :
    programSpecs (.object fields) = symbols := by
  unfold programSpecs
  simp only [eq]

/-- A program with its symbols in another order lists the same symbols, and can be declared like it. -/
theorem SameBut.program {v v' : Value} (h : SameBut "symbols" Shuffled v v') :
    ((programSpecs v).map Prod.fst).Nodup ∧ (programSpecs v).Perm (programSpecs v') ∧ (Declares v → Declares v') := by
  cases v with
  | object fields =>
    cases v' with
    | object fields' =>
      obtain ⟨L, L', eq, eq', distinct, perm⟩ :=
        (h.lookup_key (v := .object []) ⟨List.nodup_nil, .refl _⟩).object
      rw [programSpecs_of_object eq, programSpecs_of_object eq']
      refine ⟨distinct, perm, fun declares => ⟨⟨fields', rfl, ?_⟩, ?_⟩⟩
      · rw [programSpecs_of_object eq', eq']
      · rw [programSpecs_of_object eq']
        intro s mem
        exact declares.stated s (programSpecs_of_object eq ▸ perm.mem_iff.2 mem)
    | _ => exact h.elim
  | _ => exact h.elim

/-- Programs one by one, each with its symbols in another order. -/
theorem regrouped_of_forall₂ (distinct : (programs.map Prod.fst).Nodup)
    (fits : List.Forall₂ (fun p p' => p'.1 = p.1 ∧ SameBut "symbols" Shuffled p.2 p'.2) programs programs') :
    Regrouped programs programs' ∧ ((∀ p ∈ programs, Declares p.2) → ∀ p ∈ programs', Declares p.2) := by
  have one : ∀ {p p' : String × Value}, p'.1 = p.1 ∧ SameBut "symbols" Shuffled p.2 p'.2 →
      (itemsOf p).Perm (itemsOf p') := by
    rintro ⟨name, v⟩ ⟨_, v'⟩ ⟨rfl, same⟩
    exact same.program.2.1.map _
  induction fits with
  | nil => exact ⟨⟨⟨distinct, List.forall_mem_nil _⟩, ⟨distinct, List.forall_mem_nil _⟩, .refl _, .refl _⟩, id⟩
  | @cons p p' rest rest' here _ ih =>
    obtain ⟨fresh, distinct⟩ := List.nodup_cons.1 distinct
    obtain ⟨⟨⟨names, symbols⟩, ⟨names', symbols'⟩, perm, items⟩, declares⟩ := ih distinct
    obtain ⟨nodup, specs, transfers⟩ := here.2.program
    have fresh' : p'.1 ∉ rest'.map Prod.fst := fun mem => fresh (here.1 ▸ perm.mem_iff.2 mem)
    have nodup' : ((programSpecs p'.2).map Prod.fst).Nodup := (specs.map Prod.fst).nodup_iff.1 nodup
    refine ⟨⟨⟨List.nodup_cons.2 ⟨fresh, names⟩, List.forall_mem_cons.2 ⟨nodup, symbols⟩⟩,
      ⟨List.nodup_cons.2 ⟨fresh', names'⟩, List.forall_mem_cons.2 ⟨nodup', symbols'⟩⟩, ?_, ?_⟩, fun all => ?_⟩
    · rw [List.map_cons, List.map_cons, here.1]
      exact perm.cons _
    · exact (one here).append items
    · obtain ⟨first, others⟩ := List.forall_mem_cons.1 all
      exact List.forall_mem_cons.2 ⟨transfers first, declares others⟩

theorem ShuffledPrograms.regrouped (h : ShuffledPrograms (.object programs) (.object programs')) :
    Regrouped programs programs' ∧ ((∀ p ∈ programs, Declares p.2) → ∀ p ∈ programs', Declares p.2) := by
  obtain ⟨distinct, between, perm, fits⟩ := h
  have names := perm.map Prod.fst
  obtain ⟨regrouped, declares⟩ := regrouped_of_forall₂ (names.nodup_iff.1 distinct) fits
  refine ⟨⟨⟨distinct, fun p mem => regrouped.distinct.symbols p (perm.mem_iff.1 mem)⟩, regrouped.distinct',
    names.trans regrouped.names, (perm.flatMap_right _).trans regrouped.items⟩, fun all => declares fun p mem => ?_⟩
  exact all p (perm.mem_iff.2 mem)

theorem ShuffledPrograms.object {v v' : Value} (h : ShuffledPrograms v v') :
    ∃ L L', v = .object L ∧ v' = .object L' := by
  cases v with
  | object L =>
    cases v' with
    | object L' => exact ⟨L, L', rfl, rfl⟩
    | _ => exact h.elim
  | _ => exact h.elim

/-! ## Loading -/

open Workspace

variable {source source' document document' : Value} {w v : Workspace} {ρ : Renumbering}

/-- Documents that differ in the order of programs and symbols are loaded alike. -/
theorem load_mirror (reordered : Reordered document document') (fresh : Fresh w) {w' : Workspace}
    (eq : load source document w = .ok () w') : ∃ ρ v, load source' document' w = .ok () v ∧ w'.Mirror ρ v := by
  cases document with
  | object fields =>
    cases document' with
    | object fields' =>
      have options : Value.lookup "options" fields' = Value.lookup "options" fields := reordered.lookup_of_ne (by decide)
      have name : Value.lookup "name" fields' = Value.lookup "name" fields := reordered.lookup_of_ne (by decide)
      have programs := reordered.lookup_key (v := .object []) ⟨List.nodup_nil, [], .refl _, .nil⟩
      obtain ⟨L, L', same, same'⟩ := programs.object
      rw [same, same'] at programs
      obtain ⟨regrouped, declares⟩ := programs.regrouped
      unfold load at eq ⊢
      simp only [options, name, same'] at eq ⊢
      simp only [same] at eq
      obtain ⟨⟨⟩, w₁, configured, eq⟩ := bind_ok eq
      obtain ⟨⟨⟩, w₂, begun, eq⟩ := bind_ok eq
      obtain ⟨⟨⟩, w₃, declared, eq⟩ := bind_ok eq
      obtain ⟨⟨⟩, w₄, contents, eq⟩ := bind_ok eq
      have fresh₁ : Fresh w₁ := (loadOptions_meets fresh _).of_ok configured
      have started : Started w₂ := by
        cases begun
        exact fresh₁.started _
      obtain ⟨ρ, v₃, declared', mirror⟩ : ∃ ρ v, loadPrograms source' (.object L') w₂ = .ok () v ∧ w₃.Mirror ρ v :=
        loadPrograms_mirror regrouped declares started declared
      rcases (loadContents_parallel source source' fun key ne => reordered.lookup_of_ne ne).outcome mirror with
        ⟨_, _, ⟨⟩, v₄, ok, ok', _, mirror'⟩ | ⟨_, _, _, _, error, _⟩
      · cases contents.symm.trans ok
        cases eq
        refine ⟨ρ, v₄.report .info .loading ("loaded " ++ (v₄.store.node v₄.project).name.display ++ ": "
          ++ toString v₄.programs.size ++ " program(s), " ++ toString v₄.index.listed.size ++ " reflection(s)"), ?_,
          mirror'.report ..⟩
        rw [bind_of_ok configured, bind_of_ok begun, bind_of_ok declared', bind_of_ok ok']
        rfl
      · cases contents.symm.trans error
    | _ => exact reordered.elim
  | _ => exact reordered.elim

end Document

namespace Workspace

variable {w v : Workspace} {ρ : Renumbering} {document document' : Value}

/-! ## What is done with a project -/

/-- A report with new numbers. -/
def renumberAnswer (ρ : Renumbering) : Except Error (Option Report) → Except Error (Option Report) :=
  Except.map (Option.map (List.map (ModuleReport.renumber ρ)))

theorem Reached.error_of_resolve (reached : w.Reached document) {e : Error} (eq : w.resolve.1 = .error e) :
    e = .noActiveProgram := by
  obtain ⟨g, stands⟩ := reached.stands
  obtain ⟨_, _, ask⟩ := policy_of_configured stands.configured
  rcases resolve_outcome stands.sound ask with ⟨rs, w', eq', _⟩ | ⟨w', eq', _⟩
  · rw [eq'] at eq
    cases eq
  · rw [eq'] at eq
    cases eq
    rfl

/-- A command has the same answer under other numbers, errors included. -/
theorem Mirror.run (h : w.Mirror ρ v) (reached : w.Reached document) (reached' : v.Reached document') (c : Command) :
    (v.run c).1 = renumberAnswer ρ (w.run c).1 ∧ (w.run c).2.Mirror ρ (v.run c).2 := by
  cases c with
  | set options =>
    obtain ⟨answer, mirror⟩ := h.setOptions options
    refine ⟨?_, mirror⟩
    show (v.setOptions options).1.map _ = renumberAnswer ρ ((w.setOptions options).1.map _)
    rw [answer]
    cases (w.setOptions options).1 <;> rfl
  | resolve =>
    show v.resolve.1 = renumberAnswer ρ w.resolve.1 ∧ w.resolve.2.Mirror ρ v.resolve.2
    rcases h.resolve.outcome with ⟨r, w', v', eq, eq', mirror⟩ | ⟨e, w', e', v', eq, eq', mirror⟩
    · rw [eq, eq']
      exact ⟨rfl, mirror⟩
    · have same := reached.error_of_resolve (congrArg Prod.fst eq)
      have same' := reached'.error_of_resolve (congrArg Prod.fst eq')
      rw [eq, eq', same, same']
      exact ⟨rfl, mirror⟩

theorem Mirror.execute (h : w.Mirror ρ v) (reached : w.Reached document) (reached' : v.Reached document')
    (cs : List Command) :
    (v.execute cs).1 = (w.execute cs).1.map (renumberAnswer ρ) ∧ (w.execute cs).2.Mirror ρ (v.execute cs).2 := by
  induction cs generalizing w v with
  | nil => exact ⟨rfl, h⟩
  | cons c cs ih =>
    obtain ⟨answer, mirror⟩ := h.run reached reached' c
    obtain ⟨answers, final⟩ := ih mirror (reached.run c) (reached'.run c)
    exact ⟨congrArg₂ List.cons answer answers, final⟩

/-- Projects that are the same under other numbers. -/
structure SameProject (ρ : Renumbering) (w v : Workspace) : Prop where
  /-- The numbers in use are those of the nodes in use. -/
  used : ∀ id, ρ.node id < v.store.nodes.size ↔ id < w.store.nodes.size
  project : v.project = ρ.node w.project
  /-- What is written is the same tree. -/
  tree : v.store.nodeValue v.project =
    relabel (fun id => .int (ρ.node id)) ρ.node (w.store.nodeValue w.project)
  modules : v.modules = w.modules.map ρ.node
  /-- Below every node, the same symbols are missing, in the same order. -/
  missing : ∀ id, v.store.search (ρ.node id) = (w.store.search id).map (List.map ρ.symbol)
  symbol : ∀ X, v.store.symbol (ρ.symbol X) = (w.store.symbol X).renumber ρ

theorem Mirror.sameProject (h : w.Mirror ρ v) : SameProject ρ w v where
  used := h.store.lt_iff
  project := h.project_eq.symm
  tree := h.project_eq ▸ h.store.nodeValue w.project
  modules := h.modules
  missing := h.store.search
  symbol := h.store.symbol

/-- The order of declarations does not matter. A document with its programs and their symbols in another order is
accepted, too, and new numbers turn the one project into the other, whatever is done with both, and whatever goes
wrong. -/
theorem same_of_reordered {source source' : Value} (reordered : Document.Reordered document document')
    (loaded : withPlugin.load source document = (.ok (), w)) :
    ∃ v ρ, withPlugin.load source' document' = (.ok (), v) ∧ ∀ commands : List Command,
      (v.execute commands).1 = (w.execute commands).1.map (renumberAnswer ρ) ∧
        SameProject ρ (w.execute commands).2 (v.execute commands).2 := by
  have opened : ∀ {s d u}, withPlugin.load s d = (.ok (), u) → u.Reached d := fun eq =>
    .opened ⟨_, [], _, eq, rfl⟩
  obtain ⟨ρ, v, ran', mirror⟩ : ∃ ρ v, Document.load source' document' withPlugin = .ok () v ∧ w.Mirror ρ v :=
    Document.load_mirror reordered Document.fresh_withPlugin (ran_of_load loaded)
  have loaded' : withPlugin.load source' document' = (.ok (), v) := by
    unfold load
    rw [show (Document.load source' document').run withPlugin = .ok () v from ran']
  refine ⟨v, ρ, loaded', fun commands => ?_⟩
  obtain ⟨answers, final⟩ := mirror.execute (opened loaded) (opened loaded') commands
  exact ⟨answers, final.sameProject⟩

/-- A program with some symbols. -/
def programWith (symbols : List (String × Value)) : Value := .object [("symbols", .object symbols)]

/-- A document with some programs, and a module that exports a box. -/
def withBox (programs : List (String × Value)) : Value := .object [
  ("programs", .object programs),
  ("modules", .list [.object [("name", .str "a"), ("program", .str "main"), ("exports", .list [.str "Box"])]])]

def boxSpec : String × Value := ("Box", .object [("kind", .str "interface"), ("type", .str "\x7b lid: Lid \x7d")])

def lidSpec : String × Value := ("Lid", .object [("kind", .str "interface"), ("type", .str "\x7b top: void \x7d")])

/-- A box, declared first. -/
def boxFirst : Value := withBox [("main", programWith [boxSpec, lidSpec]), ("side", programWith [])]

/-- The same box, declared last. -/
def boxLast : Value := withBox [("side", programWith []), ("main", programWith [lidSpec, boxSpec])]

theorem reordered_box : Document.Reordered boxFirst boxLast := by
  have symbols : ∀ {L L'}, (L.map Prod.fst).Nodup → L.Perm L' →
      Document.SameBut "symbols" Document.Shuffled (programWith L) (programWith L') := fun distinct perm =>
    .cons ⟨rfl, (if_pos rfl).mpr ⟨distinct, perm⟩⟩ .nil
  refine .cons ⟨rfl, (if_pos rfl).mpr ⟨by decide, _, .swap _ _ _, ?_⟩⟩ (.cons ⟨rfl, rfl⟩ .nil)
  exact .cons ⟨rfl, symbols (by decide) (.refl _)⟩ (.cons ⟨rfl, symbols (by decide) (.swap _ _ _)⟩ .nil)

theorem same_of_reordered_box : Document.Reordered boxFirst boxLast ∧
    ∃ w v ρ, withPlugin.load (.str "demo") boxFirst = (.ok (), w) ∧ withPlugin.load (.str "demo") boxLast = (.ok (), v) ∧
      ∀ commands : List Command, (v.execute commands).1 = (w.execute commands).1.map (renumberAnswer ρ) ∧
        SameProject ρ (w.execute commands).2 (v.execute commands).2 := by
  obtain ⟨w, loaded⟩ : ∃ w, withPlugin.load (.str "demo") boxFirst = (.ok (), w) :=
    ⟨_, loaded_of_isOk (by decide +kernel)⟩
  obtain ⟨v, ρ, same⟩ : ∃ v ρ, withPlugin.load (.str "demo") boxLast = (.ok (), v) ∧ ∀ commands : List Command,
      (v.execute commands).1 = (w.execute commands).1.map (renumberAnswer ρ) ∧
        SameProject ρ (w.execute commands).2 (v.execute commands).2 := same_of_reordered reordered_box loaded
  exact ⟨reordered_box, w, v, ρ, loaded, same⟩

end Workspace

end DocTree
