import DocTree.Proofs.Document.Copy

/-!
# Types outside of documents

A type that is read by itself adds its nodes to an array, and leaves all names outside. It is the type that a document
without symbols would read.

* `TypeExpr.Builder.Hom b b' φ` : what is done in some surroundings, and the same done in others; `build_hom` : so are
  types;
* `inStore` : what is done to an array, done to the nodes of a workspace;
* `build_outside` : wherever a type is built, the same nodes are added, under other numbers.
-/

namespace DocTree

namespace TypeExpr

variable {m m' : Type → Type} [Monad m] [Monad m']

/-- What is done in some surroundings is done in others too, one after the other and by the same means. -/
structure Builder.Hom (b : Builder m) (b' : Builder m') (φ : ∀ {α : Type}, m α → m' α) : Prop where
  pure : ∀ {α : Type} (a : α), φ (pure a : m α) = pure a
  bind : ∀ {α β : Type} (x : m α) (f : α → m β), φ (x >>= f) = φ x >>= fun a => φ (f a)
  add : ∀ nodes, φ (b.add nodes) = b'.add nodes
  bound : ∀ name args, φ (b.bind name args) = b'.bind name args
  longNumber : φ b.longNumber = b'.longNumber

variable {b : Builder m} {b' : Builder m'} {φ : ∀ {α : Type}, m α → m' α}

theorem Builder.Hom.inline (h : b.Hom b' φ) (nodes : NodeId → List Node) : φ (b.inline nodes) = b'.inline nodes := by
  unfold Builder.inline
  simp only [h.bind, h.add, h.pure]

mutual

/-- A type is the same in both surroundings. -/
theorem build_hom (h : b.Hom b' φ) (e : Expr) : φ (build b e) = build b' e := by
  match e with
  | .name path args =>
    unfold build
    rw [h.bind, buildAll_hom h args]
    refine bind_congr fun ts => ?_
    split
    · exact h.pure _
    · exact h.bound path ts
  | .literal value =>
    unfold build
    exact h.pure _
  | .longNumber =>
    unfold build
    exact h.longNumber
  | .query path =>
    unfold build
    simp only [h.bind, h.bound, h.pure]
  | .operator word target =>
    unfold build
    simp only [h.bind, build_hom h target, h.pure]
  | .array element =>
    unfold build
    simp only [h.bind, build_hom h element, h.pure]
  | .union parts =>
    unfold build
    simp only [h.bind, buildAll_hom h parts, h.pure]
  | .intersection parts =>
    unfold build
    simp only [h.bind, buildAll_hom h parts, h.pure]
  | .tuple elements =>
    unfold build
    simp only [h.bind, buildAll_hom h elements, h.pure]
  | .object members =>
    unfold build
    simp only [h.bind, buildMembers_hom h members, h.inline]
  | .function parameters result =>
    unfold build
    simp only [h.bind, buildParameters_hom h parameters, build_hom h result, h.inline]

theorem buildAll_hom (h : b.Hom b' φ) (es : List Expr) : φ (buildAll b es) = buildAll b' es := by
  match es with
  | [] =>
    unfold buildAll
    exact h.pure _
  | e :: es =>
    unfold buildAll
    simp only [h.bind, build_hom h e, buildAll_hom h es, h.pure]

theorem buildMembers_hom (h : b.Hom b' φ) (es : List (String × Expr)) : φ (buildMembers b es) = buildMembers b' es := by
  match es with
  | [] =>
    unfold buildMembers
    exact h.pure _
  | (name, e) :: es =>
    unfold buildMembers
    simp only [h.bind, build_hom h e, buildMembers_hom h es, h.pure]

theorem buildParameters_hom (h : b.Hom b' φ) (es : List ((String × Marks) × Expr)) :
    φ (buildParameters b es) = buildParameters b' es := by
  match es with
  | [] =>
    unfold buildParameters
    exact h.pure _
  | (name, e) :: es =>
    unfold buildParameters
    simp only [h.bind, build_hom h e, buildParameters_hom h es, h.pure]

end

end TypeExpr

namespace Document

open TypeExpr

/-- What is done to an array, done to the nodes of a workspace. -/
def inStore {α : Type} (x : Building α) : Load α := fun w =>
  match x w.store.nodes with
  | .ok a nodes => .ok a { w with store := { w.store with nodes } }
  | .error e nodes => .error e { w with store := { w.store with nodes } }

theorem inStore_ok {α : Type} {x : Building α} {a : α} {w : Workspace} {nodes : Array Node}
    (h : x w.store.nodes = .ok a nodes) : inStore x w = .ok a { w with store := { w.store with nodes } } := by
  unfold inStore
  rw [h]

theorem inStore_error {α : Type} {x : Building α} {e : Error} {w : Workspace} {nodes : Array Node}
    (h : x w.store.nodes = .error e nodes) : inStore x w = .error e { w with store := { w.store with nodes } } := by
  unfold inStore
  rw [h]

theorem inStore_bind {α β : Type} (x : Building α) (f : α → Building β) :
    inStore (x >>= f) = inStore x >>= fun a => inStore (f a) := by
  funext w
  cases found : x w.store.nodes with
  | ok a nodes =>
    have later : (x >>= f) w.store.nodes = f a nodes := bind_of_ok found
    rw [bind_of_ok (inStore_ok found)]
    unfold inStore
    rw [later]
  | error e nodes =>
    have failed : (x >>= f) w.store.nodes = .error e nodes := bind_of_error found
    rw [bind_of_error (inStore_error found), inStore_error failed]

/-- The scope of a document without symbols. -/
def bare (project : NodeId) : Scope := ⟨project, .empty .null, []⟩

/-- By itself a type is what it is in a document without symbols. -/
theorem outside_hom (project : NodeId) : outsideBuilder.Hom (bare project).builder inStore where
  pure _ := rfl
  bind := inStore_bind
  add _ := rfl
  bound _ _ := rfl
  longNumber := rfl

/-- A workspace with some nodes and nothing else. -/
def holding (nodes : Array Node) : Workspace := { Workspace.empty with store := { Store.empty with nodes } }

theorem build_bare {e : Expr} {nodes nodes' : Array Node} {t : Ty} (h : build outsideBuilder e nodes = .ok t nodes')
    (project : NodeId) : build (bare project).builder e (holding nodes) = .ok t (holding nodes') := by
  rw [← build_hom (outside_hom project) e]
  exact inStore_ok (w := holding nodes) h

/-- Wherever a type is built, the same nodes are added, under the numbers that are free there. -/
theorem build_outside {e : Expr} {nodes nodes' : Array Node} {t : Ty}
    (h : build outsideBuilder e nodes = .ok t nodes') :
    ∃ added : List Node, nodes' = nodes ++ added ∧ ∀ ⦃ρ : Renumbering⦄ ⦃all : Array Node⦄,
      (∀ i < added.length, ρ.node (nodes.size + i) = all.size + i) →
        build outsideBuilder e all = .ok (t.renumber ρ) (all ++ added.map (Node.renumber ρ)) := by
  obtain ⟨added, ss, eq, _, same⟩ := build_copies e (build_bare h 0)
  obtain rfl : ss = [] := by
    have symbols := Workspace.symbols_extended (holding nodes) added ss
    rw [← eq] at symbols
    exact symbols.symm
  refine ⟨added, congrArg (fun w => w.store.nodes) eq, fun ρ all shift => ?_⟩
  have fits : (bare 0).Renumbered ρ (bare (ρ.node 0)) := ⟨rfl, rfl, fun _ => rfl, rfl⟩
  have shifts : ρ.Shifts (holding nodes).store (holding all).store added.length 0 :=
    ⟨shift, fun i lt => absurd lt (Nat.not_lt_zero i)⟩
  have built : build (bare (ρ.node 0)).builder e (holding all) = _ := same fits shifts
  rw [← build_hom (outside_hom _) e] at built
  cases found : build outsideBuilder e all with
  | ok u all' =>
    rw [inStore_ok (w := holding all) found] at built
    obtain ⟨rfl, eq⟩ := EStateM.Result.ok.inj built
    exact congrArg _ (congrArg (fun w => w.store.nodes) eq)
  | error f all' =>
    rw [inStore_error (w := holding all) found] at built
    cases built

end Document

end DocTree
