import DocTree.Proofs.Resolve.Creations
import DocTree.Proofs.Scoping.Lexical

/-!
# Symbols that are marked as opaque

* `Overlooked extras u w X` : a symbol is not described, and of all that was created since `u` nothing is for it;
* `Reached.loaded` : passes leave symbols as they were loaded;
* `overlooked_iff` : which symbols these are: only marks on the symbols of programs are honoured.
-/

namespace DocTree

open Workspace

variable {extras : Set (Kind × Value)} {u v w : Workspace} {X : SymbolId} {document : Value}

/-- A symbol is not described, and nothing was created for it: whatever was created since the programs were read, in `u`,
is for another symbol or for none. If it resolves to a node, it is one of these. -/
structure Overlooked (extras : Set (Kind × Value)) (u w : Workspace) (X : SymbolId) : Prop where
  undescribed : (w.store.symbol X).description = none
  unmade : ∀ id, u.Created w id → w.Spare extras id ∨ ∃ Y, Y ≠ X ∧ w.MadeFor Y id
  elsewhere : ∀ id, w.nodeOf? X = some id → w.Spare extras id ∨ ∃ Y, Y ≠ X ∧ w.MadeFor Y id

theorem Once.overlooked (h : Once extras u w) (undescribed : (w.store.symbol X).description = none) :
    Overlooked extras u w X := by
  have unmade : ∀ id, u.Created w id → w.Spare extras id ∨ ∃ Y, Y ≠ X ∧ w.MadeFor Y id := by
    intro id created
    refine (h.created id created).imp_right fun ⟨Y, made, _⟩ => ⟨Y, ?_, made⟩
    rintro rfl
    have described := made.described
    rw [undescribed] at described
    cases described
  exact ⟨undescribed, unmade, fun id bound => unmade id (h.resolved X id bound)⟩

/-! ## Documents -/

/-- Passes leave symbols as they were loaded. -/
theorem Workspace.Reached.loaded (reached : w.Reached document) :
    ∃ source v, withPlugin.load source document = (.ok (), v) ∧ w.store.symbols = v.store.symbols := by
  induction reached with
  | opened opened =>
    obtain ⟨source, options, v, loaded, set⟩ := opened
    have same := congrArg (·.store.symbols) (setOptions_same options v)
    rw [set] at same
    exact ⟨source, v, loaded, same⟩
  | @configured w options _ ih =>
    obtain ⟨source, v, loaded, same⟩ := ih
    refine ⟨source, v, loaded, Eq.trans ?_ same⟩
    rw [setOptions_same options w]
  | @resolved w reached ih =>
    obtain ⟨source, v, loaded, same⟩ := ih
    obtain ⟨g, stands⟩ := reached.stands
    obtain ⟨_, made, run⟩ := stands.run .resolve
    exact ⟨source, v, loaded, run.symbols.trans same⟩

theorem Store.symbolAt?_congr {s t : Store} (same : s.symbols = t.symbols) (X : SymbolId) (path : List Nat) :
    s.symbolAt? X path = t.symbolAt? X path := by
  induction path generalizing X with
  | nil => rfl
  | cons i path ih =>
    rw [symbolAt?, symbolAt?, membersOf, membersOf, symbol_congr same]
    exact congrArg (Option.bind _) (funext ih)

namespace Document

variable {i : Item} {path : List Nat} {spec : Value}

/-- Only marks on the symbols of programs are honoured. What a description stands for is left undescribed, and
nothing is ever created for it, if and only if the symbol of the program around it is marked. What is marked inside makes
no difference. -/
theorem overlooked_iff (opened : v.Opened document) (commands : List Command)
    (distinct : Distinct (programsOf document.fields))
    (listed : (i, X) ∈ numbered 0 (items (programsOf document.fields))) (here : specAt? i.spec path = some spec) :
    ∃ u, ProgramsRead document u ∧ ((∀ Y, (v.execute commands).2.store.symbolAt? X path = some Y →
      Overlooked (listedModules document ∪ v.namespaces commands) u (v.execute commands).2 Y) ↔
        isOpaque i.spec = true) := by
  obtain ⟨_, u₀, read, origin, edits, _⟩ := opened.edited commands
  refine ⟨u₀, read, ?_⟩
  have once := origin.once edits
  generalize last : (v.execute commands).2 = w at once
  have reached : w.Reached document := last ▸ (Reached.opened opened).execute commands
  obtain ⟨source, v₁, loaded, same⟩ := reached.loaded
  obtain ⟨u, g, E, exports, children, ids, _, faithful, rfl⟩ :=
    reported_of_load fresh_withPlugin distinct (ran_of_load loaded)
  have same : w.store.symbols = u.store.symbols := same
  obtain ⟨e, mem, rfl, rfl⟩ := faithful.recorded.listing.mem_numbered.1 listed
  rw [Store.symbolAt?_congr same]
  constructor
  · intro overlooked
    by_contra unmarked
    obtain ⟨Y, d, there, described, _⟩ := faithful.told mem (Bool.eq_false_iff.2 unmarked) path spec here
    have undescribed := (overlooked Y there).undescribed
    rw [Store.symbol_congr same, described] at undescribed
    cases undescribed
  · intro outer Y there
    have undescribed : (u.store.symbol e.task.id).description = none := by
      rw [faithful.recorded.declared e mem]
      exact (faithful.recorded.made e mem).blank outer
    cases path with
    | nil =>
      cases there
      exact once.overlooked ((congrArg _ (Store.symbol_congr same _)).trans undescribed)
    | cons i path =>
      rw [Store.symbolAt?, Store.membersOf, undescribed] at there
      cases there

/-- An interface with a member that is marked, and an interface that is marked itself. -/
def marks : Value := .object [("name", .str "demo"),
  ("programs", .object [("main", .object [("symbols", .object [
    ("Box", .object [("kind", .str "interface"), ("members", .object [
      ("lid", .object [("kind", .str "property"), ("type", .str "string"), ("opaque", .bool true)])])]),
    ("Hidden", .object [("kind", .str "interface"), ("opaque", .bool true)])])])]),
  ("modules", .list [.object [("name", .str "a"), ("program", .str "main"), ("exports", .list [.str "Box"])]])]

theorem opened_marks : Opened marks (withPlugin.load (.str "demo") marks).2 :=
  opened_of_isOk (by decide +kernel)

/-- The mark of the interface is honoured, also by a pass. -/
theorem overlooked_iff_hidden : ∃ i u, (i, 1) ∈ numbered 0 (items (programsOf marks.fields)) ∧ isOpaque i.spec = true ∧
    ProgramsRead marks u ∧
    ∀ Y, ((withPlugin.load (.str "demo") marks).2.execute [.resolve]).2.store.symbolAt? 1 [] = some Y →
      Overlooked (listedModules marks ∪ (withPlugin.load (.str "demo") marks).2.namespaces [.resolve]) u
        ((withPlugin.load (.str "demo") marks).2.execute [.resolve]).2 Y := by
  obtain ⟨u, read, honoured⟩ := overlooked_iff opened_marks [.resolve] ⟨by decide, by decide⟩
    (List.mem_cons_of_mem _ List.mem_cons_self) (show specAt? _ [] = some _ from rfl)
  exact ⟨⟨"main", "Hidden", _⟩, u, List.mem_cons_of_mem _ List.mem_cons_self, by decide, read,
    honoured.2 (by decide)⟩

/-- The mark of the member is not: it is described, and a node is made for it. -/
theorem not_overlooked_lid : ∃ i spec Y id, (i, 0) ∈ numbered 0 (items (programsOf marks.fields)) ∧
    specAt? i.spec [0] = some spec ∧ isOpaque spec = true ∧
    (withPlugin.load (.str "demo") marks).2.store.symbolAt? 0 [0] = some Y ∧
    ((withPlugin.load (.str "demo") marks).2.store.symbol Y).description.isSome = true ∧
    (withPlugin.load (.str "demo") marks).2.nodeOf? Y = some id ∧
    (withPlugin.load (.str "demo") marks).2.index.symbolsOf id = [Y] ∧
    ∀ extras u, ¬Overlooked extras u (withPlugin.load (.str "demo") marks).2 Y := by
  have described : ((withPlugin.load (.str "demo") marks).2.store.symbol 2).description.isSome = true := by
    decide +kernel
  refine ⟨⟨"main", "Box", _⟩, _, 2, 3, List.mem_cons_self, rfl, by decide, by decide +kernel, described,
    by decide +kernel, by decide +kernel, fun names u overlooked => ?_⟩
  rw [overlooked.undescribed] at described
  cases described

end Document

end DocTree
