import DocTree.Proofs.Renumber.Store
import DocTree.Store.Lookup

/-!
# Lookups and searches under other numbers

* `Mirror.find`, `Mirror.seek` : a path of names leads to the same node, renumbered;
* `Mirror.resolve` : a link leads to the same node, renumbered;
* `Mirror.missing`, `Mirror.search` : a search finds the same symbols, renumbered, in the same order.
-/

namespace DocTree

variable {ρ : Renumbering}

namespace Store

variable {s t : Store}

theorem haveFlags_of_empty (strays : s.strays = .empty) (ids : List NodeId) : s.haveFlags ids = true := by
  unfold haveFlags
  rw [strays, List.all_eq_true]
  exact fun id _ => Strays.hasFlags_empty id

/-! ## Names -/

theorem Mirror.childNamed (h : s.Mirror ρ t) (id : NodeId) (name : Value) :
    t.childNamed (ρ.node id) name = (s.childNamed id name).map ρ.node := by
  unfold Store.childNamed
  rw [h.children, List.find?_map]
  refine congrArg (Option.map ρ.node) (congrArg (List.find? · _) (funext fun child => ?_))
  rw [Function.comp_apply, h.name]

theorem Mirror.childAt (h : s.Mirror ρ t) (path : NamePath) (id : NodeId) :
    t.childAt path (ρ.node id) = (s.childAt path id).map ρ.node := by
  induction path generalizing id with
  | nil => rfl
  | cons name rest ih =>
    cases rest with
    | nil => exact h.childNamed id name
    | cons next rest =>
      rw [Store.childAt, Store.childAt, h.childNamed]
      cases s.childNamed id name with
      | none => rfl
      | some child => exact ih child

theorem Mirror.childrenOfKind (h : s.Mirror ρ t) (id : NodeId) (mask : Kind) :
    t.childrenOfKind (ρ.node id) mask = (s.childrenOfKind id mask).map ρ.node := by
  unfold Store.childrenOfKind
  rw [h.children, List.filter_map]
  refine congrArg (List.map ρ.node) (congrArg (List.filter · _) (funext fun child => ?_))
  rw [Function.comp_apply, Node.isKind, h.kind]
  rfl

theorem Mirror.findInProject (h : s.Mirror ρ t) (project : NodeId) (path : NamePath) :
    t.findInProject (ρ.node project) path = (s.findInProject project path).map ρ.node := by
  unfold Store.findInProject
  rw [h.childAt, h.childrenOfKind, Option.map_or, List.findSome?_map, List.map_findSome?]
  refine congrArg _ (congrArg (List.findSome? · _) (funext fun module => h.childAt path module))

theorem Mirror.findUp (h : s.Mirror ρ t) (path : NamePath) (height : Nat) (id : NodeId) :
    t.findUp path height (ρ.node id) = (s.findUp path height id).map ρ.node := by
  induction height generalizing id with
  | zero => rfl
  | succ height ih =>
    unfold Store.findUp
    rw [h.node, Node.body_renumber, Node.parent_renumber, h.childAt, h.findInProject]
    cases (s.node id).body with
    | project _ => rfl
    | _ =>
      cases (s.node id).parent with
      | none => rfl
      | some parent =>
        simp only [Body.renumber, Option.map_some, ih, Option.map_or]

theorem Mirror.find (h : s.Mirror ρ t) (scope : NodeId) (path : NamePath) :
    t.find (ρ.node scope) path = (s.find scope path).map ρ.node := by
  rw [Store.find, h.size]
  exact h.findUp path _ scope

theorem Mirror.checkUp (h : s.Mirror ρ t) (path : NamePath) (height : Nat) (id : NodeId) :
    t.checkUp path height (ρ.node id) = s.checkUp path height id := by
  induction height generalizing id with
  | zero => rfl
  | succ height ih =>
    unfold Store.checkUp
    rw [h.node, Node.body_renumber, Node.parent_renumber, h.childAt, Option.isSome_map,
      haveFlags_of_empty h.strays, haveFlags_of_empty h.strays', h.strays, h.strays']
    split
    · rfl
    · cases (s.node id).body with
      | project _ => rfl
      | _ =>
        cases (s.node id).parent with
        | none => rfl
        | some parent => exact ih parent

theorem Mirror.seek (h : s.Mirror ρ t) (scope : NodeId) (path : NamePath) :
    t.seek (ρ.node scope) path = (s.seek scope path).map (Option.map ρ.node) := by
  unfold Store.seek
  rw [h.size, h.checkUp, h.find]
  cases s.checkUp path (s.nodes.size + 1) scope <;> rfl

/-! ## Links -/

theorem Mirror.resolve (h : s.Mirror ρ t) (link : Link) : t.resolve (link.renumber ρ) = (s.resolve link).map ρ.node := by
  cases link with
  | external => rfl
  | node project id =>
    cases id with
    | ofNat id =>
      simp only [Link.renumber, Store.resolve, (h.index project).listed.contains]
      split <;> rfl
    | negSucc id => rfl
  | symbol project X => exact h.nodeOf? project X
  | loose X => rfl

theorem Mirror.missingSymbol (h : s.Mirror ρ t) (link : Link) :
    t.missingSymbol (link.renumber ρ) = (s.missingSymbol link).map ρ.symbol := by
  cases link with
  | external => rfl
  | node project id => cases id <;> rfl
  | symbol project X =>
    have same := h.resolve (.symbol project X)
    simp only [Link.renumber] at same
    simp only [Store.missingSymbol, Link.renumber, same, Option.isNone_map]
    split <;> rfl
  | loose X => rfl

/-! ## Searches -/

theorem Mirror.levels (h : s.Mirror ρ t) (depth : Nat) (level : List NodeId) :
    t.levels depth (level.map ρ.node) = (s.levels depth level).map ρ.node := by
  induction depth generalizing level with
  | zero => rfl
  | succ depth ih =>
    cases level with
    | nil => rfl
    | cons id ids =>
      have next : ((id :: ids).map ρ.node).flatMap (fun id => (t.node id).successors) =
          ((id :: ids).flatMap fun id => (s.node id).successors).map ρ.node := by
        rw [List.flatMap_map, List.map_flatMap]
        refine List.flatMap_congr fun id _ => ?_
        rw [h.node, Node.successors_renumber]
      rw [List.map_cons, Store.levels, Store.levels, ← List.map_cons, next, ih, List.map_append]
      · simp
      · simp

theorem Mirror.reached (h : s.Mirror ρ t) (root : NodeId) : t.reached (ρ.node root) = (s.reached root).map ρ.node := by
  rw [Store.reached, h.size]
  exact h.levels _ [root]

theorem firsts_map {α β : Type} [DecidableEq α] [DecidableEq β] {f : α → β} (injective : Function.Injective f)
    (as : List α) : firsts (as.map f) = (firsts as).map f := by
  induction as with
  | nil => rfl
  | cons a as ih =>
    rw [List.map_cons, firsts, firsts, ih, List.map_cons, List.filter_map]
    refine congrArg (List.cons _) (congrArg (List.map f) (congrArg (List.filter · _) (funext fun b => ?_)))
    simp only [Function.comp_apply, ne_eq, injective.eq_iff]

/-- A search finds the same symbols, in the same order. -/
theorem Mirror.missing (h : s.Mirror ρ t) (root : NodeId) :
    t.missing (ρ.node root) = (s.missing root).map ρ.symbol := by
  unfold Store.missing
  rw [← firsts_map ρ.symbol.injective, h.reached, List.flatMap_map, List.map_filterMap, List.filterMap_flatMap,
    List.filterMap_flatMap]
  refine congrArg firsts (List.flatMap_congr fun id _ => ?_)
  rw [h.node, Node.links_renumber, List.filterMap_map]
  exact List.filterMap_congr fun link _ => h.missingSymbol link

theorem Mirror.search (h : s.Mirror ρ t) (root : NodeId) :
    t.search (ρ.node root) = (s.search root).map (List.map ρ.symbol) := by
  have searchable : t.isSearchable (ρ.node root) = s.isSearchable root := by
    unfold Store.isSearchable
    rw [h.reached, List.all_map]
    refine List.all_congr rfl fun id => ?_
    rw [Function.comp_apply, h.node]
    exact Node.isComplete_renumber ρ _
  unfold Store.search
  rw [searchable, h.missing]
  split <;> rfl

end Store

end DocTree
