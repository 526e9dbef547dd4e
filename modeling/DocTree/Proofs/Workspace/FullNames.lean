import DocTree.Proofs.Store.Naming
import DocTree.Proofs.Workspace.Removal

/-!
# Lookup in a project

* `Built w` : `w` comes from a fresh project by symbols being described and any operations being performed, with
  nothing put where it has no place; `Built.history`, `Built.placed`;
* `lookup_inverts` : a full name leads back to its node, and lookup from a scope goes up to the project.
-/

namespace DocTree

theorem Store.Sprouts.isProject {s t : Store} {scope id : NodeId} {types : List Ty} (h : s.Sprouts scope types t)
    (inside : id < s.nodes.size) : t.isProject id = s.isProject id := by
  unfold Store.isProject
  by_cases here : id = scope
  · rw [here, h.widened, Node.giveChildren_body]
    cases (s.node scope).body <;> rfl
  · rw [h.same inside here]

theorem Store.Loses.isProject {s t : Store} {id : NodeId} (h : s.Loses id t) (id' : NodeId) :
    t.isProject id' = s.isProject id' := by
  unfold Store.isProject
  rw [h.body]
  by_cases above : (s.node id).parent = some id'
  · rw [if_pos above]
    cases (s.node id').body <;> rfl
  · rw [if_neg above]

namespace Workspace

/-- Workspaces that come from a fresh project by any operations, with nothing put where it has no place. -/
inductive Built : Workspace → Prop
  | started (w : Workspace) (name : Value) : w.store.strays = .empty → (w.startProject name).WrapsOwn →
    Built (w.startProject name)
  | parsed {w w' : Workspace} : Built w → Parsed w w' → w'.store.strays = w.store.strays → Built w'
  | performed {w : Workspace} (op : Operation) : Built w → Built (w.perform op)

/-- The project is one, and nothing is where it has no place. -/
structure Placed (w : Workspace) : Prop where
  inside : w.project < w.store.nodes.size
  project : w.store.isProject w.project = true
  strays : w.store.strays = .empty

variable {w w' : Workspace} {scope : NodeId}

theorem Placed.grown (h : Placed w) {types : List Ty} (grown : w.store.Sprouts scope types w'.store)
    (project : w'.project = w.project) : Placed w' := by
  refine ⟨?_, ?_, grown.strays h.strays⟩
  · rw [project]
    exact Nat.lt_trans h.inside grown.size
  · rw [project, grown.isProject h.inside]
    exact h.project

theorem Placed.quiet (h : Placed w) (q : Quiet w w') : Placed w' := by
  refine ⟨?_, ?_, ?_⟩
  · rw [q.project, q.store]
    exact h.inside
  · rw [q.project, q.store]
    exact h.project
  · rw [q.store]
    exact h.strays

theorem Placed.convert (h : Placed w) (scope : NodeId) (symbol : SymbolId) : Placed (w.convert scope symbol).2 := by
  refine kept_convert (I := Placed) (P := fun _ _ => True) (fun h q => ⟨h.quiet q, fun _ => trivial⟩) ?_ h trivial
    symbol
  intro w scope symbol d h _ container _
  have declared := declared_declare w (Store.lt_of_isContainer container) symbol d
  exact ⟨h.grown declared.sprouts declared.kept.project, fun _ => trivial, trivial⟩

theorem Placed.perform (h : Placed w) (op : Operation) : Placed (w.perform op) := by
  cases op with
  | create scope kind name symbol =>
    unfold Workspace.perform
    dsimp only
    unfold create?
    by_cases container : w.store.isContainer scope = true
    · rw [if_pos container]
      have sprouts := sprouts_create (Store.lt_of_isContainer container) kind name symbol
      exact h.grown sprouts (kept_create ..).project
    · rw [if_neg container]
      exact h
  | convert scope symbol => exact h.convert scope symbol
  | register scope id symbol =>
    have kept := kept_register w scope id symbol
    show Placed (w.register scope id symbol)
    refine ⟨?_, ?_, kept.strays h.strays⟩
    · rw [kept.project, nodes_register]
      exact h.inside
    · rw [kept.project, Store.isProject, node_register]
      exact h.project
  | activate program => exact ⟨h.inside, h.project, h.strays⟩
  | remove id =>
    have loses := loses_remove w id
    have kept := kept_remove w id
    show Placed (w.remove id)
    refine ⟨?_, ?_, kept.strays h.strays⟩
    · rw [kept.project, loses.size]
      exact h.inside
    · rw [kept.project, loses.isProject]
      exact h.project

theorem placed_startProject (strays : w.store.strays = .empty) (name : Value) : Placed (w.startProject name) := by
  have node : (w.startProject name).store.node (w.startProject name).project = ⟨name, .project, none, .project []⟩ :=
    (Store.node_addNode ..).trans (if_pos rfl)
  refine ⟨?_, ?_, strays⟩
  · show w.store.nodes.size < (w.store.addNode _).2.nodes.size
    rw [Store.size_addNode]
    exact Nat.lt_succ_self _
  · rw [Store.isProject, node]

theorem Built.placed (built : Built w) : Placed w := by
  induction built with
  | started w name strays _ => exact placed_startProject strays name
  | parsed _ parsed same ih =>
    refine ⟨?_, ?_, same.trans ih.strays⟩
    · rw [parsed.project]
      exact Nat.lt_of_lt_of_le ih.inside parsed.nodes.size
    · rw [parsed.project, Store.isProject, parsed.nodes.same ih.inside]
      exact ih.project
  | performed op _ ih => exact ih.perform op

theorem Built.history (built : Built w) : History w := by
  induction built with
  | started w name _ own => exact .started w name own
  | parsed _ parsed _ ih => exact ih.parsed parsed
  | performed op _ ih => exact ih.performed op

theorem Built.run (built : Built w) (ops : List Operation) : Built (ops.foldl perform w) := by
  induction ops generalizing w with
  | nil => exact built
  | cons op ops ih => exact ih (built.performed op)

/-- Lookup inverts full names. A declaration that is reached from the project by names without dots, none of which
an earlier sibling bears, has these for its full name, and is what the project finds by it. From any node lookup goes
up: it gives what the nearest node on the way up has at the path that has something there, and in a project at the end
of the way, if none has, what the first module has that has something there. Every scope below the project has a way up
that ends in it. -/
theorem lookup_inverts (built : Built w) :
    (∀ names d, w.store.Singled w.project names d → d ≠ w.project →
      w.store.fullName "." d = .ok (.str (".".intercalate names)) ∧
        w.store.seek w.project (.ofString (".".intercalate names)) = .ok (some d)) ∧
    (∀ scope line path, w.store.Ascends scope line → w.store.seek scope path =
      .ok ((line.findSome? (w.store.childAt path)).or (w.store.inModules path line))) ∧
    ∀ scope, w.store.Below w.project scope → ∃ line, w.store.Ascends scope line ∧ line.getLast? = some w.project := by
  obtain ⟨inside, project, strays⟩ := built.placed
  have ordered := built.history.tidy.ordered
  refine ⟨fun names d singled ne => ?_, fun scope line path ascends => Store.seek_line strays ascends path,
    fun scope below => below.ascends ordered project⟩
  have several : names ≠ [] := fun none => ne (singled.eq_top none)
  exact ⟨Store.fullName_singled strays ordered project singled several,
    Store.seek_singled strays project singled several⟩

theorem built_boundClass : Built boundClass := by
  have beside : Built besideClass :=
    .parsed (.started empty (.str "app") rfl fun _ _ described => nomatch described)
      ⟨rfl, rfl, rfl, ⟨by decide +kernel, fun lt => Nat.lt_one_iff.1 lt ▸ rfl⟩, wrapsOwn_besideClass⟩ rfl
  exact beside.run _

theorem singled_boundClass : boundClass.store.Singled boundClass.project ["shapes", "Box"] 3 := by
  have shapes : boundClass.store.children boundClass.project = [] ++ 2 :: [] := by decide +kernel
  have box : boundClass.store.children 2 = [] ++ 3 :: [9] := by decide +kernel
  have above : boundClass.store.Singled boundClass.project ["shapes"] 2 :=
    .child .start shapes (Value.same_str_right.1 (by decide +kernel)) (by decide +kernel) nofun
  exact .child above box (Value.same_str_right.1 (by decide +kernel)) (by decide +kernel) nofun

/-- The class is found by its full name. Its module has a member of the name of the member of the class, and what
is not found in the class is found in the project. -/
theorem lookup_inverts_boundClass : Built boundClass ∧
    boundClass.store.Singled boundClass.project ["shapes", "Box"] 3 ∧ 3 ≠ boundClass.project ∧
    boundClass.store.fullName "." 3 = .ok (.str "shapes.Box") ∧
    boundClass.store.seek boundClass.project (.ofString "shapes.Box") = .ok (some 3) ∧
    boundClass.store.seek 3 (.ofString "size") = .ok (some 8) ∧
    boundClass.store.seek 3 (.ofString "shapes.size") = .ok (some 9) := by
  obtain ⟨names, up, -⟩ := lookup_inverts built_boundClass
  have ne : 3 ≠ boundClass.project := by decide +kernel
  obtain ⟨full, back⟩ := names _ 3 singled_boundClass ne
  have line : boundClass.store.Ascends 3 [3, 2, 0] :=
    .step (by decide +kernel) (by decide +kernel) (.step (by decide +kernel) (by decide +kernel)
      (.project (by decide +kernel)))
  refine ⟨built_boundClass, singled_boundClass, ne, full, back, ?_, ?_⟩
  · exact (up 3 _ _ line).trans (congrArg _ (by decide +kernel))
  · exact (up 3 _ _ line).trans (congrArg _ (by decide +kernel))

end Workspace

end DocTree
