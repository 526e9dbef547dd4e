import DocTree.Proofs.Faithful.Output
import DocTree.Proofs.Scoping.Descriptions

/-!
# Type parameters are scoped lexically

* `Faithful.found`, `Faithful.told` : right after loading, a symbol that was described is found under its name, and what
  its description says is told of it;
* `spells_of_load` : every type in a document that was accepted is found where it is written, and every name in it is
  bound by the type parameters around it and by nothing else.
-/

namespace DocTree

namespace Document

variable {g : Ground} {E : List Entry} {exports : List Mention} {children ids : List NodeId} {u v w : Workspace}
  {source document : Value} {i : Item}

/-- A symbol that a document lists is found in its program. -/
theorem Faithful.found (h : Faithful document g E exports children ids w) {e : Entry} (mem : e ∈ E) :
    w.programs.find? (.text e.task.item.program) = some e.task.program ∧
      e.task.program.symbols.find? (.text e.task.item.name) = some e.task.id := by
  have listing := h.recorded.listing
  have task : e.task ∈ tasks 0 (programsOf document.fields) := listing.tasks ▸ List.mem_map_of_mem mem
  have numbered := listing.mem_numbered.2 ⟨e, mem, rfl, rfl⟩
  refine ⟨?_, ((listing.knows mem).find?_iff _).2 ⟨e.task.item, numbered, rfl⟩⟩
  rw [h.exported.table]
  exact find?_of_task listing.distinct task

/-- What the description of a symbol says is told of it. -/
theorem Faithful.told (h : Faithful document g E exports children ids w) {e : Entry} (mem : e ∈ E)
    (described : isOpaque e.task.item.spec = false) : Told w (scopeOf 0 e.task) e.task.item.spec e.task.id := by
  obtain ⟨w', d, first, first', eq, ran⟩ := (h.recorded.made e mem).described described
  obtain ⟨ns, ss, same, told⟩ := describe_told (v := w) _ _ _ _ w' ran
  obtain ⟨rfl, rfl⟩ := extended_inj same
  rw [first, first'] at told
  refine told (h.recorded.nodes e mem) (h.recorded.symbols e mem) (h.recorded.stated e mem) e.task.id ?_
  rw [h.recorded.declared e mem]
  exact eq

end Document

namespace Workspace

open Document

variable {v w : Workspace} {source document : Value} {i : Item}

/-- Type parameters are scoped lexically. Of every document that was accepted, every text that is written for a type
in the description of a symbol, or of a member at any depth, was read where it stands. Each name in it that is referred
to or queried leads to the symbol of the same program that is called exactly so, unless there is none, or the first part
of the name is that of a type parameter of the signature around the text, of the symbol described there, or of one
around that; then it is left outside. -/
theorem spells_of_load (fresh : Fresh w) (distinct : Distinct (programsOf document.fields))
    (loaded : w.load source document = (.ok (), v)) (listed : i ∈ items (programsOf document.fields))
    (described : isOpaque i.spec = false) {path : List Nat} {slot : Slot} {text : String}
    (here : valueAt? i.spec path slot = some (.str text)) :
    ∃ program X t e, v.programs.find? (.text i.program) = some program ∧
      program.symbols.find? (.text i.name) = some X ∧ v.store.typeAt? X path slot = some t ∧
      TypeExpr.parse text = .ok e ∧ Spells v.store (Binds v.project program (hiddenAt i.spec path slot)) e t := by
  obtain ⟨u, g, E, exports, children, ids, _, faithful, rfl⟩ :=
    reported_of_load fresh distinct (ran_of_load loaded)
  have project : u.project = 0 := faithful.exported.filling.sound.project.trans faithful.project
  rw [← faithful.recorded.listing.items] at listed
  obtain ⟨e, mem, rfl⟩ := List.mem_map.1 listed
  obtain ⟨inner, way, value⟩ := Option.bind_eq_some_iff.1 here
  obtain ⟨X, d, found, description, slots⟩ := faithful.told mem described path inner way
  obtain ⟨t, type, expr, parsed, spells⟩ := slots slot text value
  obtain ⟨program, symbol⟩ := faithful.found mem
  refine ⟨e.task.program, e.task.id, t, expr, program, symbol, ?_, parsed, ?_⟩
  · exact Option.bind_eq_some_iff.2 ⟨X, found, Option.bind_eq_some_iff.2 ⟨d, description, type⟩⟩
  · have names : hiddenAt e.task.item.spec path slot =
        slot.hidden (specFields inner) ++ outerNames e.task.item.spec path := by
      rw [hiddenAt, way]
      rfl
    have allows : Scope.Allows ((scopeOf 0 e.task).hide
        (slot.hidden (specFields inner) ++ outerNames e.task.item.spec path)) =
        Binds u.project e.task.program (hiddenAt e.task.item.spec path slot) := by
      rw [names, project, Scope.Allows, Scope.hide]
      exact congrArg _ (List.append_nil _)
    exact allows ▸ spells

/-- A type parameter hides a class in one signature of its own member, and nowhere else. -/
def shadows : Value := .object [
  ("programs", .object [("main", .object [("symbols", .object [
    ("T", .object [("kind", .str "interface")]),
    ("Box", .object [("kind", .str "class"), ("typeParameters", .object [("T", .null)]),
      ("members", .object [
        ("lid", .object [("kind", .str "method"), ("signatures", .list [
          .object [("typeParameters", .object [("Box", .str "Box")]), ("parameters", .object [("x", .str "Box | T")])],
          .object [("parameters", .object [("x", .str "Box | T")])]])]),
        ("size", .str "Box")])])])])]),
  ("exports", .list [.str "Box"])]

/-- In the second signature, the class is in sight, and its type parameter hides the interface. -/
theorem spells_of_load_shadows : ∃ v i, withPlugin.load (.str "demo") shadows = (.ok (), v) ∧
    i ∈ items (programsOf shadows.fields) ∧ hiddenAt i.spec [0] (.signature 0 (.parameter 0)) = ["Box", "T"] ∧
    hiddenAt i.spec [0] (.signature 1 (.parameter 0)) = ["T"] ∧
    ∃ program X t e, v.programs.find? (.text i.program) = some program ∧
      program.symbols.find? (.text i.name) = some X ∧
      v.store.typeAt? X [0] (.signature 1 (.parameter 0)) = some t ∧ TypeExpr.parse "Box | T" = .ok e ∧
      Spells v.store (Binds v.project program (hiddenAt i.spec [0] (.signature 1 (.parameter 0)))) e t := by
  obtain ⟨v, loaded⟩ : ∃ v, withPlugin.load (.str "demo") shadows = (.ok (), v) :=
    ⟨_, loaded_of_isOk (by decide +kernel)⟩
  refine ⟨v, _, loaded, List.mem_cons_of_mem _ List.mem_cons_self, by decide, by decide, ?_⟩
  exact spells_of_load fresh_withPlugin ⟨by decide, by decide⟩ loaded (List.mem_cons_of_mem _ List.mem_cons_self)
    (by decide) rfl

end Workspace

end DocTree
