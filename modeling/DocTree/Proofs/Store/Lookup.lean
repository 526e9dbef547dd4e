import DocTree.Proofs.Workspace.Sound
import DocTree.Store.Lookup
import Mathlib.Data.List.Find

/-!
# What a name leads to

* `seek_project` : in a sound workspace nothing is out of place on the way of a lookup;
* `Store.Below s a b` : `b` hangs below `a`; `exists_below_of_findInProject` : what a name leads to
  hangs below the project, and bears the last part of the name;
* `Outgrows s t label` : from `s` to `t`, old nodes gained nothing but namespaces called `label`;
* `findInProject_outgrows` : a name without a part `label` leads to the same node as before;
* `Below.of_outgrows` : an old node hangs where it did.
-/

namespace DocTree

/-- The last part of a dotted name. -/
def lastPart (name : String) : Option String := (Text.parts '.' name).getLast?

namespace Store

variable {g : Ground} {s t : Store}

/-- `b` hangs below `a`, or is `a`. -/
def Below (s : Store) : NodeId → NodeId → Prop := Relation.ReflTransGen fun x y => y ∈ s.children x

/-! ## Lookup from the project -/

theorem find_project (h : Layout g s) (path : NamePath) : s.find g.project path = s.findInProject g.project path := by
  obtain ⟨children, eq⟩ := h.project
  unfold find findUp
  simp only [eq]

theorem seek_project (h : Layout g s) (path : NamePath) :
    s.seek g.project path = .ok (s.findInProject g.project path) := by
  obtain ⟨children, eq⟩ := h.project
  have flags : s.haveFlags (s.children g.project) = true := by
    unfold haveFlags
    rw [h.strays]
    exact List.all_eq_true.2 fun id _ => Strays.hasFlags_empty id
  have check : s.checkUp path (s.nodes.size + 1) g.project = .ok () := by
    unfold checkUp
    split
    · rfl
    · simp only [eq, flags, Bool.or_true, if_true]
  unfold seek
  rw [check, find_project h]
  rfl

/-! ## What is found -/

theorem childNamed_some {id c : NodeId} {part : String} (found : s.childNamed id (.str part) = some c) :
    c ∈ s.children id ∧ (s.node c).name = .str part := by
  have same := List.find?_some found
  exact ⟨List.mem_of_find?_eq_some found, Value.same_str_right.1 same⟩

theorem exists_below_of_childAt {parts : List String} {id c : NodeId}
    (found : s.childAt (parts.map .str) id = some c) :
    ∃ x part, s.Below id x ∧ c ∈ s.children x ∧ parts.getLast? = some part ∧ (s.node c).name = .str part := by
  induction parts generalizing id with
  | nil => cases found
  | cons part parts ih =>
    cases parts with
    | nil =>
      obtain ⟨mem, name⟩ := childNamed_some found
      exact ⟨id, part, .refl, mem, rfl, name⟩
    | cons next rest =>
      obtain ⟨y, here, found⟩ := Option.bind_eq_some_iff.1 found
      obtain ⟨x, last, way, mem, eq, name⟩ := ih found
      exact ⟨x, last, way.head (childNamed_some here).1, mem, by rw [List.getLast?_cons_cons]; exact eq, name⟩

theorem exists_below_of_findInProject {name : String} {project c : NodeId}
    (found : s.findInProject project (.ofString name) = some c) :
    ∃ x part, s.Below project x ∧ c ∈ s.children x ∧ lastPart name = some part ∧ (s.node c).name = .str part := by
  unfold findInProject NamePath.ofString at found
  rcases Option.or_eq_some_iff.1 found with found | ⟨_, found⟩
  · exact exists_below_of_childAt found
  · obtain ⟨m, mem, found⟩ := List.exists_of_findSome?_eq_some found
    obtain ⟨x, part, way, mem', last, name⟩ := exists_below_of_childAt found
    exact ⟨x, part, way.head (List.mem_of_mem_filter mem), mem', last, name⟩

theorem Below.proper (h : Layout g s) {a b : NodeId} (proper : g.Proper a) (way : s.Below a b) : g.Proper b := by
  induction way with
  | refl => exact proper
  | tail _ step ih => exact Or.inr (h.child ih step).1

/-! ## Growing by namespaces -/

/-- Old nodes keep their names, their kinds and their children, and gain at most some namespaces of a
given name behind these; nothing old hangs below anything new. -/
structure Outgrows (s t : Store) (label : Value) : Prop where
  size : s.nodes.size ≤ t.nodes.size
  name : ∀ {id}, id < s.nodes.size → (t.node id).name = (s.node id).name
  kind : ∀ {id}, id < s.nodes.size → (t.node id).kind = (s.node id).kind
  children : ∀ {id}, id < s.nodes.size → ∃ extra, t.children id = s.children id ++ extra ∧
    ∀ c ∈ extra, s.nodes.size ≤ c ∧ (t.node c).name = label ∧ (t.node c).kind = .nameSpace
  fresh : ∀ {id c}, s.nodes.size ≤ id → c ∈ t.children id → s.nodes.size ≤ c

variable {label : Value}

theorem Outgrows.refl (s : Store) (label : Value) : Outgrows s s label where
  size := Nat.le_refl _
  name := fun _ => rfl
  kind := fun _ => rfl
  children := fun _ => ⟨[], (List.append_nil _).symm, List.forall_mem_nil _⟩
  fresh := fun outside mem => by
    rw [children_of_size_le outside] at mem
    cases mem

theorem Outgrows.trans {u : Store} (h : Outgrows s t label) (h' : Outgrows t u label) : Outgrows s u label where
  size := Nat.le_trans h.size h'.size
  name := fun inside => (h'.name (Nat.lt_of_lt_of_le inside h.size)).trans (h.name inside)
  kind := fun inside => (h'.kind (Nat.lt_of_lt_of_le inside h.size)).trans (h.kind inside)
  children := fun {id} inside => by
    obtain ⟨extra, eq, new⟩ := h.children inside
    obtain ⟨extra', eq', new'⟩ := h'.children (Nat.lt_of_lt_of_le inside h.size)
    refine ⟨extra ++ extra', by rw [eq', eq, List.append_assoc], fun c mem => ?_⟩
    rcases List.mem_append.1 mem with mem | mem
    · obtain ⟨above, name, kind⟩ := new c mem
      by_cases below : c < t.nodes.size
      · exact ⟨above, (h'.name below).trans name, (h'.kind below).trans kind⟩
      · rw [node_of_size_le (Nat.le_of_not_lt below)] at kind
        cases kind
    · obtain ⟨above, rest⟩ := new' c mem
      exact ⟨Nat.le_trans h.size above, rest⟩
  fresh := fun {id c} outside mem => by
    by_cases inside : id < t.nodes.size
    · obtain ⟨extra, eq, new⟩ := h'.children inside
      rw [eq] at mem
      rcases List.mem_append.1 mem with mem | mem
      · exact h.fresh outside mem
      · exact Nat.le_trans h.size (new c mem).1
    · exact Nat.le_trans h.size (h'.fresh (Nat.le_of_not_lt inside) mem)

theorem childNamed_outgrows (layout : Layout g s) (h : Outgrows s t label) {id : NodeId} (proper : g.Proper id)
    (inside : id < s.nodes.size) {part : String} (other : label ≠ .str part) :
    t.childNamed id (.str part) = s.childNamed id (.str part) := by
  obtain ⟨extra, eq, new⟩ := h.children inside
  unfold childNamed
  rw [eq, List.find?_append]
  have none : extra.find? (fun child => (t.node child).name.same (.str part)) = none := by
    refine List.find?_eq_none.2 fun c mem same => other ?_
    rw [← (new c mem).2.1]
    exact Value.same_str_right.1 same
  rw [none, Option.or_none]
  refine List.find?_congr fun c mem => ?_
  rw [h.name (layout.child proper mem).2.1]

theorem childAt_outgrows (layout : Layout g s) (h : Outgrows s t label) {parts : List String}
    (other : ∀ part ∈ parts, label ≠ .str part) {id : NodeId} (proper : g.Proper id)
    (inside : id < s.nodes.size) : t.childAt (parts.map .str) id = s.childAt (parts.map .str) id := by
  induction parts generalizing id with
  | nil => rfl
  | cons part parts ih =>
    have first := childNamed_outgrows layout h proper inside (other part List.mem_cons_self)
    cases parts with
    | nil => exact first
    | cons next rest =>
      show (t.childNamed id (.str part)).bind (t.childAt _) = (s.childNamed id (.str part)).bind (s.childAt _)
      rw [first]
      cases found : s.childNamed id (.str part) with
      | none => rfl
      | some c =>
        obtain ⟨above, below, _⟩ := layout.child proper (childNamed_some found).1
        exact ih (fun p mem => other p (List.mem_cons_of_mem _ mem)) (Or.inr above) below

theorem modules_outgrows (layout : Layout g s) (h : Outgrows s t label) :
    t.childrenOfKind g.project .module = s.childrenOfKind g.project .module := by
  obtain ⟨extra, eq, new⟩ := h.children layout.project_lt_size
  unfold childrenOfKind
  rw [eq, List.filter_append]
  have none : extra.filter (fun child => (t.node child).isKind .module) = [] := by
    refine List.filter_eq_nil_iff.2 fun c mem => ?_
    rw [Node.isKind, (new c mem).2.2]
    decide
  rw [none, List.append_nil]
  refine List.filter_congr fun c mem => ?_
  rw [Node.isKind, h.kind (layout.child (Or.inl rfl) mem).2.1]
  rfl

/-- A name no part of which is the label leads where it did before. -/
theorem findInProject_outgrows (layout : Layout g s) (h : Outgrows s t label) {name : String}
    (other : ∀ part ∈ Text.parts '.' name, label ≠ .str part) :
    t.findInProject g.project (.ofString name) = s.findInProject g.project (.ofString name) := by
  have modules := modules_outgrows layout h
  have same : ∀ m ∈ s.childrenOfKind g.project .module,
      t.childAt (.ofString name) m = s.childAt (.ofString name) m := by
    intro m mem
    obtain ⟨above, below, _⟩ := layout.child (Or.inl rfl) (List.mem_of_mem_filter mem)
    exact childAt_outgrows layout h other (Or.inr above) below
  unfold findInProject
  rw [modules, show t.childAt (.ofString name) g.project = s.childAt (.ofString name) g.project from
    childAt_outgrows layout h other (Or.inl rfl) layout.project_lt_size]
  rw [← List.head?_filterMap, ← List.head?_filterMap, List.filterMap_congr same]

theorem Below.of_outgrows (h : Outgrows s t label) {a b : NodeId} (way : t.Below a b) (inside : b < s.nodes.size) :
    s.Below a b := by
  induction way with
  | refl => exact .refl
  | @tail x y _ step ih =>
    have old : x < s.nodes.size := by
      by_contra outside
      exact absurd inside (Nat.not_lt_of_le (h.fresh (Nat.le_of_not_lt outside) step))
    obtain ⟨extra, eq, new⟩ := h.children old
    rw [eq] at step
    rcases List.mem_append.1 step with step | step
    · exact (ih old).tail step
    · exact absurd inside (Nat.not_lt_of_le (new y step).1)

/-- An old node still hangs where it did. -/
theorem Below.outgrows (h : Outgrows s t label) {a b : NodeId} (way : s.Below a b) : t.Below a b := by
  refine Relation.ReflTransGen.mono (fun x y step => ?_) _ _ way
  have inside : x < s.nodes.size := by
    by_contra outside
    have none : s.children x = [] := children_of_size_le (Nat.le_of_not_lt outside)
    have step : y ∈ s.children x := step
    rw [none] at step
    cases step
  obtain ⟨extra, eq, _⟩ := h.children inside
  show y ∈ t.children x
  rw [eq]
  exact List.mem_append_left _ step

theorem Below.mem_walk {a b : NodeId} (way : s.Below a b) (inside : b < s.nodes.size) : b ∈ s.walk a := by
  refine mem_walk_of_owned (Relation.ReflTransGen.mono (fun x y step => ?_) _ _ way) inside
  exact Node.mem_owned_of_mem_children step

end Store

end DocTree
