import DocTree.Document.Load
import DocTree.Proofs.Renumber.Resolve

/-!
# Modules and exports under other numbers

* `convertExports_parallel` : exports are converted alike;
* `loadContents_parallel` : what hangs below a project is loaded alike, from programs whose names stand for the same.
-/

namespace DocTree

open Workspace

variable {ρ : Renumbering}

/-- The only value of a table with one entry. -/
theorem OrdMap.values_eq_singleton_iff {α β : Type} [DecidableEq α] {m : OrdMap α β} {b : β} :
    m.values = [b] ↔ m.size = 1 ∧ ∃ k, m.find? k = some b := by
  unfold values size
  constructor
  · intro eq
    have length := congrArg List.length eq
    rw [List.length_map] at length
    have mem : b ∈ m.entries.map Prod.snd := eq ▸ List.mem_singleton_self b
    obtain ⟨⟨k, b'⟩, here, rfl⟩ := List.mem_map.1 mem
    exact ⟨length, k, (m.find?_eq_some_iff k b').2 here⟩
  · rintro ⟨length, k, found⟩
    obtain ⟨e, eq⟩ := List.length_eq_one_iff.1 length
    have mem := (m.find?_eq_some_iff k b).1 found
    rw [eq, List.mem_singleton] at mem
    rw [eq, ← mem]
    rfl

namespace Document

abbrev Unison (ρ : Renumbering) (x y : Load Unit) : Prop := Parallel (Workspace.Mirror ρ) (fun _ _ => True) x y

theorem parts_parallel (v : Value) : Parallel (Workspace.Mirror ρ) (fun a b => b = a) (parts v) (parts v) := by
  unfold parts
  split
  · exact parallel_pure rfl
  · exact parallel_throw

/-- What is stored under a name has the same place in both. -/
theorem named_parallel {w v : Workspace} (same : Workspace.Mirror ρ w v) (path path' name : Value) :
    Parallel (Workspace.Mirror ρ) (Program.Mirror ρ)
      (match name.key?.bind w.programs.find? with
        | some program => return program
        | none => throw (.model path (.unknownProgram name)) : Load Program)
      (match name.key?.bind v.programs.find? with
        | some program => return program
        | none => throw (.model path' (.unknownProgram name))) := by
  cases name.key? with
  | none => exact parallel_throw
  | some key =>
    have related := same.programs key
    rw [Option.bind_some, Option.bind_some]
    revert related
    cases w.programs.find? key <;> cases v.programs.find? key <;> intro related
    · exact parallel_throw
    · cases related
    · cases related
    · rename_i p q
      cases related with
      | some mirror => exact parallel_pure mirror

theorem programNamed_parallel (path path' name : Value) :
    Parallel (Workspace.Mirror ρ) (Program.Mirror ρ) (programNamed path name) (programNamed path' name) := by
  unfold programNamed
  refine parallel_bind parallel_get fun w v same => ?_
  dsimp only
  have named := named_parallel same path path' name
  cases name with
  | null =>
    have single : ∀ {p q}, w.programs.values = [p] → v.programs.values = [q] → p.Mirror ρ q := by
      intro p q values values'
      obtain ⟨_, key, found⟩ := OrdMap.values_eq_singleton_iff.1 values
      have related := same.programs key
      rw [found] at related
      generalize found' : v.programs.find? key = q' at related
      cases related with
      | some mirror =>
        have values'' := OrdMap.values_eq_singleton_iff.2 ⟨(OrdMap.values_eq_singleton_iff.1 values').1, key, found'⟩
        cases values'.symm.trans values''
        exact mirror
    have length : v.programs.values.length = w.programs.values.length := by
      unfold OrdMap.values
      rw [List.length_map, List.length_map]
      exact same.programCount
    revert single length
    generalize w.programs.values = ps
    generalize v.programs.values = qs
    intro single length
    match ps, qs with
    | [], [] => exact named
    | [p], [q] => exact parallel_pure (single rfl rfl)
    | _ :: _ :: _, _ :: _ :: _ => exact named
    | [], _ :: _ | [_], [] | [_], _ :: _ :: _ | _ :: _ :: _, [] | _ :: _ :: _, [_] => simp at length
  | _ => exact named

theorem exportNamed_parallel {p q : Program} (h : p.Mirror ρ q) (path path' name : Value) :
    Parallel (Workspace.Mirror ρ) (fun X Y => Y = ρ.symbol X) (exportNamed path p name) (exportNamed path' q name) := by
  unfold exportNamed
  split
  · exact parallel_throw
  · rename_i key _
    have same : q.symbols.find? key = (p.symbols.find? key).map ρ.symbol := h.symbols key
    rw [same]
    cases p.symbols.find? key with
    | none => exact parallel_throw
    | some X => exact parallel_pure rfl

theorem convertSymbol_parallel (scope : NodeId) (X : SymbolId) :
    Unison ρ (convertSymbol scope X) (convertSymbol (ρ.node scope) (ρ.symbol X)) := by
  unfold convertSymbol
  refine parallel_bind parallel_get fun w v same => ?_
  rcases (same.convert scope X).outcome with ⟨id, w, v, eq, eq', mirror⟩ | ⟨e, w, e', v, eq, eq', mirror⟩
  · simp only [eq, eq']
    exact parallel_set mirror
  · simp only [eq, eq']
    exact parallel_bind (parallel_set mirror) fun _ _ _ => parallel_throw

theorem convertNames_parallel {p q : Program} (h : p.Mirror ρ q) (scope : NodeId) (path path' : Value)
    (names : List Value) : Unison ρ (convertNames scope path p names) (convertNames (ρ.node scope) path' q names) := by
  induction names with
  | nil => exact parallel_pure trivial
  | cons name names ih =>
    unfold convertNames
    refine parallel_bind (exportNamed_parallel h path path' name) fun X _ here => ?_
    subst here
    exact parallel_bind (convertSymbol_parallel scope X) fun _ _ _ => ih

/-- Exports are converted alike. -/
theorem convertExports_parallel {p q : Program} (h : p.Mirror ρ q) (scope : NodeId) (path path' : Value)
    (exports : Option Value) :
    Unison ρ (convertExports scope path p exports) (convertExports (ρ.node scope) path' q exports) := by
  unfold convertExports
  rw [h.name]
  refine parallel_bind (parallel_modify fun w v same => same.activate _) fun _ _ _ => ?_
  refine parallel_bind (parts_parallel _) fun names _ here => ?_
  rw [here]
  refine parallel_bind (convertNames_parallel h scope path path' names) fun _ _ _ => ?_
  exact parallel_modify fun w v same => same.activate none

theorem createModule_parallel (program name : Value) :
    Parallel (Workspace.Mirror ρ) (fun id id' => id' = ρ.node id) (createModule program name)
      (createModule program name) := by
  unfold createModule
  refine parallel_bind (parallel_modify fun w v same => same.activate (some program)) fun _ _ _ => ?_
  refine parallel_bind parallel_get fun w v same => ?_
  have container := same.store.isContainer w.project
  obtain ⟨id, created⟩ := same.create w.project .module name none
  rw [same.project_eq] at container id created
  rw [Option.map_none] at id created
  unfold create?
  rw [container]
  cases w.store.isContainer w.project with
  | false => exact parallel_throw
  | true =>
    simp only [if_true]
    rcases (Job.announce?_agree created id).outcome with ⟨_, w, v, eq, eq', mirror⟩ | ⟨e, w, e', v, eq, eq', mirror⟩
    · rw [eq, eq']
      exact parallel_bind (parallel_set (mirror.activate none)) fun _ _ _ => parallel_pure id
    · rw [eq, eq']
      exact parallel_bind (parallel_set mirror) fun _ _ _ => parallel_throw

theorem loadModule_parallel (path path' : String) (v : Value) : Unison ρ (loadModule path v) (loadModule path' v) := by
  unfold loadModule
  split
  · split
    · exact parallel_throw
    · rename_i name _
      refine parallel_bind (programNamed_parallel _ _ _) fun p q same => ?_
      rw [same.name]
      refine parallel_bind (createModule_parallel p.name name) fun id _ here => ?_
      subst here
      exact convertExports_parallel same id _ _ _
  · exact parallel_throw

theorem loadModules_parallel (source source' : Value) (i : Nat) (vs : List Value) :
    Unison ρ (loadModules source i vs) (loadModules source' i vs) := by
  induction vs generalizing i with
  | nil => exact parallel_pure trivial
  | cons v vs ih =>
    unfold loadModules
    exact parallel_bind (loadModule_parallel _ _ v) fun _ _ _ => ih (i + 1)

/-- What hangs below a project is loaded alike. -/
theorem loadContents_parallel (source source' : Value) {fields fields' : List (String × Value)}
    (same : ∀ key, key ≠ "programs" → Value.lookup key fields' = Value.lookup key fields) :
    Unison ρ (loadContents source fields) (loadContents source' fields') := by
  unfold loadContents
  rw [same "modules" (by decide), same "program" (by decide), same "exports" (by decide)]
  split
  · refine parallel_bind (programNamed_parallel _ _ _) fun p q mirror => ?_
    refine parallel_bind parallel_get fun w v same => ?_
    rw [← same.project_eq]
    exact convertExports_parallel mirror w.project _ _ _
  · refine parallel_bind (parts_parallel _) fun vs _ here => ?_
    rw [here]
    exact loadModules_parallel _ _ 0 vs

end Document

end DocTree
