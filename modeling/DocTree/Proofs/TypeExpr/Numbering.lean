import DocTree.Proofs.Document.Tally
import DocTree.Proofs.Store.Discovery
import DocTree.Proofs.Store.Tree
import DocTree.Proofs.TypeExpr.Compositional

/-!
# The numbers of inline types

A type that is read by itself takes numbers for the nodes of the types declared inline in it. All of these nodes are
found from the type, each once, and an inline type has a larger number than all that is found from its parts.

* `Store.Unfolds s stack visited` : a stack is worked off after some visits, what a node leads to before what is left;
* `Numbered s roots low high` : the visits are to the numbers from `low` on and below `high`, each once, and to those
  inside a declaration only below its own number; `Numbered.append`, `Numbered.wrap`;
* `Numbers before x after` : what is built keeps the numbers in order; `build_numbers`.
-/

namespace DocTree

namespace Store

/-- A stack is worked off after some visits, in this order: what the node on top leads to is put on top. -/
inductive Unfolds (s : Store) : List NodeId → List NodeId → Prop
  | done : Unfolds s [] []
  | visit {id : NodeId} {stack visited : List NodeId} :
    Unfolds s ((s.node id).successors ++ stack) visited → Unfolds s (id :: stack) (id :: visited)

variable {s : Store} {stack stack' visited visited' : List NodeId}

theorem Unfolds.append (h : s.Unfolds stack visited) (h' : s.Unfolds stack' visited') :
    s.Unfolds (stack ++ stack') (visited ++ visited') := by
  induction h with
  | done => exact h'
  | visit _ ih =>
    rw [List.append_assoc] at ih
    exact .visit ih

/-- What is visited from a stack is visited from its upper part first. -/
theorem Unfolds.split (h : s.Unfolds (stack ++ stack') visited) :
    ∃ upper lower, visited = upper ++ lower ∧ s.Unfolds stack upper ∧ s.Unfolds stack' lower := by
  generalize eq : stack ++ stack' = whole at h
  induction h generalizing stack with
  | done =>
    obtain ⟨rfl, rfl⟩ := List.append_eq_nil_iff.1 eq
    exact ⟨[], [], rfl, .done, .done⟩
  | @visit id rest visited h ih =>
    cases stack with
    | nil =>
      rw [List.nil_append] at eq
      exact ⟨[], id :: visited, rfl, .done, eq ▸ .visit h⟩
    | cons top stack =>
      obtain ⟨rfl, rfl⟩ := List.cons.inj eq
      obtain ⟨upper, lower, rfl, above, below⟩ := ih (List.append_assoc ..)
      exact ⟨top :: upper, lower, rfl, .visit above, below⟩

/-- Everything that a search from the stack comes to is visited, and nothing else. -/
theorem Unfolds.mem_iff (h : s.Unfolds stack visited) {id : NodeId} :
    id ∈ visited ↔ ∃ root ∈ stack, s.Reaches root id := by
  induction h with
  | done => simp
  | @visit top rest visited _ ih =>
    simp only [List.mem_cons, ih, List.mem_append]
    constructor
    · rintro (rfl | ⟨root, next | mem, way⟩)
      · exact ⟨id, .inl rfl, .refl id⟩
      · exact ⟨top, .inl rfl, (Reaches.single next).trans way⟩
      · exact ⟨root, .inr mem, way⟩
    · rintro ⟨root, rfl | mem, way⟩
      · rcases way.cases_head with rfl | ⟨next, first, rest⟩
        · exact .inl rfl
        · exact .inr ⟨next, .inl first, rest⟩
      · exact .inr ⟨root, .inr mem, way⟩

/-- Nodes are visited, and everything that they lead to. -/
theorem Unfolds.above {ids : List NodeId} (h : s.Unfolds (ids.flatMap fun id => (s.node id).successors) visited) :
    ∃ all, s.Unfolds ids all ∧ all.Perm (ids ++ visited) := by
  induction ids generalizing visited with
  | nil =>
    cases h
    exact ⟨[], .done, .refl _⟩
  | cons id ids ih =>
    rw [List.flatMap_cons] at h
    obtain ⟨own, others, rfl, first, more⟩ := h.split
    obtain ⟨rest, unfolds, perm⟩ := ih more
    refine ⟨id :: (own ++ rest), .visit (first.append unfolds), ?_⟩
    have swapped : (own ++ rest).Perm (own ++ (ids ++ others)) := perm.append_left own
    refine (List.Perm.cons id swapped).trans (.cons id ?_)
    exact List.perm_append_comm_assoc own ids others

end Store

/-- What is found from some nodes has the numbers from `low` on and below `high`, each once. What is found from the
types of a declaration, of its signatures and parameters and of its members, has lower numbers than it. -/
structure Numbered (s : Store) (roots : List NodeId) (low high : Nat) : Prop where
  once : ∃ visited, s.Unfolds roots visited ∧ visited.Perm (List.range' low (high - low))
  inner : ∀ ⦃outer id root found : Nat⦄ ⦃t : Ty⦄, low ≤ outer → outer < high → s.Structural outer id →
    (s.node id).body.HoldsType t → root ∈ t.inlines → s.Reaches root found → found < outer

variable {s : Store} {roots roots' : List NodeId} {low mid high : Nat}

theorem numbered_nil (s : Store) (low : Nat) : Numbered s [] low low := by
  refine ⟨⟨[], .done, ?_⟩, ?_⟩
  · rw [Nat.sub_self]
    exact .refl _
  · intro outer _ _ _ _ above below
    omega

theorem Numbered.append (h : Numbered s roots low mid) (h' : Numbered s roots' mid high) (le : low ≤ mid)
    (le' : mid ≤ high) : Numbered s (roots ++ roots') low high := by
  obtain ⟨visited, unfolds, perm⟩ := h.once
  obtain ⟨visited', unfolds', perm'⟩ := h'.once
  refine ⟨⟨visited ++ visited', unfolds.append unfolds', (perm.append perm').trans (.of_eq ?_)⟩, ?_⟩
  · have parts := List.range'_append_1 (s := low) (m := mid - low) (n := high - mid)
    rw [Nat.add_sub_cancel' le] at parts
    rw [parts]
    congr 1
    omega
  · intro outer id root found t above below
    rcases Nat.lt_or_ge outer mid with lt | ge
    · exact h.inner above lt
    · exact h'.inner ge below

/-- The nodes from a number on are the ones of a list. -/
def Store.At (s : Store) (low : Nat) (ns : List Node) : Prop := ∀ i (lt : i < ns.length), s.node (low + i) = ns[i]

theorem Store.At.map_node {ns : List Node} (h : s.At low ns) : (List.range' low ns.length).map s.node = ns := by
  refine List.ext_getElem (by simp) fun i lt lt' => ?_
  simp [h i lt']

theorem Store.At.append {ns ns' : List Node} (h : s.At low (ns ++ ns')) :
    s.At low ns ∧ s.At (low + ns.length) ns' := by
  refine ⟨fun i lt => ?_, fun i lt => ?_⟩
  · rw [h i (by simp; omega), List.getElem_append_left lt]
  · rw [Nat.add_assoc, h (ns.length + i) (by simpa using lt), List.getElem_append_right (by omega)]
    simp

theorem Store.At.cons {n : Node} {ns : List Node} (h : s.At low (n :: ns)) : s.node low = n ∧ s.At (low + 1) ns := by
  have parts : s.At low ([n] ++ ns) := h
  obtain ⟨first, rest⟩ := parts.append
  exact ⟨first 0 Nat.zero_lt_one, rest⟩

/-- New nodes, which the first of them leads to, around what was there. -/
theorem Numbered.wrap {ns : List Node} {id : Nat} (h : Numbered s roots low id) (le : low ≤ id) (there : s.At id ns)
    (above : ∀ visited, s.Unfolds roots visited →
      ∃ all, s.Unfolds [id] all ∧ all.Perm (List.range' id ns.length ++ visited))
    (closed : ∀ n ∈ ns, ∀ other : Nat, other ∈ n.body.children ∨ other ∈ n.limbs → id ≤ other ∧ other < id + ns.length)
    (types : ∀ n ∈ ns, ∀ t, n.body.HoldsType t → ∀ root ∈ t.inlines, root ∈ roots) :
    Numbered s [id] low (id + ns.length) := by
  have new {a : Nat} (ge : id ≤ a) (lt : a < id + ns.length) : s.node a ∈ ns := by
    obtain ⟨i, rfl⟩ := Nat.exists_eq_add_of_le ge
    rw [there i (by omega)]
    exact List.getElem_mem _
  obtain ⟨visited, unfolds, perm⟩ := h.once
  refine ⟨?_, ?_⟩
  · obtain ⟨all, unfolds', perm'⟩ := above visited unfolds
    refine ⟨all, unfolds', perm'.trans ((List.perm_append_comm.trans (perm.append_right _)).trans (.of_eq ?_))⟩
    have parts := List.range'_append_1 (s := low) (m := id - low) (n := ns.length)
    rw [Nat.add_sub_cancel' le] at parts
    rw [parts]
    congr 1
    omega
  · intro outer a root found t ge lt structural held mem way
    rcases Nat.lt_or_ge outer id with old | here
    · exact h.inner ge old structural held mem way
    · have inside : ∀ {a : Nat}, s.Structural outer a → id ≤ a ∧ a < id + ns.length := by
        intro a structural
        induction structural with
        | refl => exact ⟨here, lt⟩
        | tail _ lists ih => exact closed _ (new ih.1 ih.2) _ lists
      have place := inside structural
      have root' : root ∈ roots := types _ (new place.1 place.2) t held root mem
      have below := perm.mem_iff.1 (unfolds.mem_iff.2 ⟨root, root', way⟩)
      have bounds := List.mem_range'_1.1 below
      omega

namespace TypeExpr

/-! ## Inline types -/

theorem flatMap_successors {ns : List Node} (there : s.At low ns) :
    (List.range' low ns.length).flatMap (fun id => (s.node id).successors) = ns.flatMap Node.successors := by
  rw [← there.map_node, List.flatMap_map, there.map_node]

theorem successors_properties (id : NodeId) (members : List (String × Ty)) :
    (members.map fun m => propertyNode id m.1 m.2).flatMap Node.successors = members.flatMap fun m => m.2.inlines := by
  rw [List.flatMap_map]
  refine List.flatMap_congr fun m _ => ?_
  simp [Node.successors, Node.parts, propertyNode]

theorem successors_parameters (id : NodeId) (parameters : List ((String × Marks) × Ty)) :
    (parameters.map fun p => parameterNode id p.1.1 p.1.2 p.2).flatMap Node.successors =
      parameters.flatMap fun p => p.2.inlines := by
  rw [List.flatMap_map]
  refine List.flatMap_congr fun p _ => ?_
  simp [Node.successors, Node.parts, parameterNode]

theorem numbered_object {id : Nat} {members : List (String × Ty)}
    (h : Numbered s (members.flatMap fun m => m.2.inlines) low id) (le : low ≤ id)
    (there : s.At id (objectNodes id members)) : Numbered s [id] low (id + (objectNodes id members).length) := by
  have length : (objectNodes id members).length = members.length + 1 := by simp [objectNodes]
  refine h.wrap le there (fun visited unfolds => ?_) (fun n mem other lists => ?_) fun n mem t held root inside => ?_
  · obtain ⟨node, rest⟩ := there.cons
    have properties := flatMap_successors rest
    rw [successors_properties, List.length_map] at properties
    rw [← properties] at unfolds
    obtain ⟨all, unfolds, perm⟩ := unfolds.above
    have top : (s.node id).successors = List.range' (id + 1) members.length := by
      rw [node]
      simp [Node.successors_eq, Node.parts, Node.flatMap_enters_node]
    refine ⟨id :: all, .visit (by rwa [top, List.append_nil]), ?_⟩
    rw [length, List.range'_succ]
    exact .cons id perm
  · rw [length]
    simp only [objectNodes, List.mem_cons, List.mem_map] at mem
    rcases mem with rfl | ⟨m, -, rfl⟩
    · simp [Body.children, Node.limbs, List.mem_range'_1] at lists
      omega
    · simp [propertyNode, Body.children, Node.limbs] at lists
  · have part := Node.holdsType_iff.1 held
    simp only [objectNodes, List.mem_cons, List.mem_map] at mem
    rcases mem with rfl | ⟨m, mem, rfl⟩
    · simp [Node.parts] at part
    · obtain rfl : t = m.2 := by simpa [propertyNode, Node.parts] using part
      exact List.mem_flatMap.2 ⟨m, mem, inside⟩

theorem numbered_function {id : Nat} {parameters : List ((String × Marks) × Ty)} {result : Ty}
    (h : Numbered s (parameters.flatMap (fun p => p.2.inlines) ++ result.inlines) low id) (le : low ≤ id)
    (there : s.At id (functionNodes id parameters result)) :
    Numbered s [id] low (id + (functionNodes id parameters result).length) := by
  have length : (functionNodes id parameters result).length = parameters.length + 2 := by simp [functionNodes]
  refine h.wrap le there (fun visited unfolds => ?_) (fun n mem other lists => ?_) fun n mem t held root inside => ?_
  · obtain ⟨node, rest⟩ := there.cons
    obtain ⟨node', rest⟩ := rest.cons
    have taken := flatMap_successors rest
    rw [successors_parameters, List.length_map] at taken
    rw [← taken] at unfolds
    obtain ⟨upper, lower, rfl, inner, returned⟩ := unfolds.split
    obtain ⟨all, unfolds, perm⟩ := inner.above
    have top : (s.node id).successors = [id + 1] := by
      rw [node]
      simp [Node.successors_eq, Node.parts, Part.enters]
    have next : (s.node (id + 1)).successors = List.range' (id + 1 + 1) parameters.length ++ result.inlines := by
      rw [node']
      simp [Node.successors_eq, Node.parts, Node.flatMap_enters_node, Part.enters]
    have below : s.Unfolds [id + 1] ((id + 1) :: (all ++ lower)) := by
      refine .visit ?_
      rw [next, List.append_nil]
      exact unfolds.append returned
    refine ⟨id :: (id + 1) :: (all ++ lower), .visit (by rwa [top, List.append_nil]), ?_⟩
    rw [length, List.range'_succ, List.range'_succ]
    refine .cons id (.cons (id + 1) ?_)
    exact (perm.append_right lower).trans (.of_eq (List.append_assoc ..))
  · rw [length]
    simp only [functionNodes, List.mem_cons, List.mem_map] at mem
    rcases mem with rfl | rfl | ⟨m, -, rfl⟩
    · simp [Body.children, Node.limbs] at lists
      omega
    · simp [Body.children, Node.limbs, List.mem_range'_1] at lists
      omega
    · simp [parameterNode, Body.children, Node.limbs] at lists
  · have part := Node.holdsType_iff.1 held
    simp only [functionNodes, List.mem_cons, List.mem_map] at mem
    rcases mem with rfl | rfl | ⟨m, mem, rfl⟩
    · simp [Node.parts] at part
    · obtain rfl : t = result := by simpa [Node.parts] using part
      exact List.mem_append_right _ inside
    · obtain rfl : t = m.2 := by simpa [parameterNode, Node.parts] using part
      exact List.mem_append_left _ (List.mem_flatMap.2 ⟨m, mem, inside⟩)

/-! ## Building -/

def InOrder (low : Nat) (added : List Node) (roots : List NodeId) : Prop :=
  ∀ s : Store, s.At low added → Numbered s roots low (low + added.length)

/-- Started behind nodes with some declarations at hand, a computation ends with others at hand, and all numbers are in
order; if it fails, it is for a whole number with too many digits. In either case nodes are only added. -/
def Numbers {α : Type} (before : List NodeId) (x : Building α) (after : α → List NodeId) : Prop :=
  ∀ (all : Array Node) (earlier : List Node), InOrder all.size earlier before →
    Meets x (all ++ earlier)
      (fun a nodes => ∃ added : List Node, nodes = all ++ added ∧ InOrder all.size added (after a))
      fun e nodes => e = .longNumber ∧ ∃ added : List Node, nodes = all ++ added

variable {α β : Type} {before : List NodeId} {x : Building α} {after : α → List NodeId}

theorem numbers_pure {a : α} (same : before = after a) : Numbers before (pure a) after :=
  fun _ earlier ordered => meets_pure ⟨earlier, rfl, same ▸ ordered⟩

theorem numbers_throw : Numbers before (throw .longNumber : Building α) after :=
  fun _ earlier _ => meets_throw ⟨rfl, earlier, rfl⟩

theorem Numbers.bind {f : α → Building β} {last : β → List NodeId} (h : Numbers before x after)
    (h' : ∀ a, Numbers (after a) (f a) last) : Numbers before (x >>= f) last := by
  intro all earlier ordered
  refine meets_bind (h all earlier ordered) fun a nodes => ?_
  rintro ⟨added, rfl, ordered'⟩
  exact h' a all added ordered'

/-- More at hand stays at hand. -/
theorem Numbers.frame (h : Numbers [] x after) (more : List NodeId) : Numbers more x fun a => more ++ after a := by
  intro all earlier ordered
  have start : InOrder (all ++ earlier).size [] [] := fun s _ => numbered_nil s _
  have framed := h (all ++ earlier) [] start
  rw [show all ++ earlier ++ ([] : List Node) = all ++ earlier from rfl] at framed
  refine framed.mono ?_ ?_
  · rintro a nodes ⟨added, rfl, ordered'⟩
    refine ⟨earlier ++ added, append_append_list .., fun s there => ?_⟩
    have parts := there.append
    have first := ordered s parts.1
    have second := ordered' s (by rw [size_append_list]; exact parts.2)
    rw [size_append_list, Nat.add_assoc, ← List.length_append] at second
    exact first.append second (by omega) (by rw [List.length_append]; omega)
  · rintro e nodes ⟨rfl, added, rfl⟩
    exact ⟨rfl, earlier ++ added, append_append_list ..⟩

theorem numbers_inline {ns : NodeId → List Node} {roots : List NodeId}
    (wrap : ∀ {s : Store} {low id : Nat}, Numbered s roots low id → low ≤ id → s.At id (ns id) →
      Numbered s [id] low (id + (ns id).length)) :
    Numbers roots (outsideBuilder.inline ns) Ty.inlines := by
  intro all earlier ordered
  unfold Meets
  rw [inline_behind]
  refine ⟨_, rfl, fun s there => ?_⟩
  have parts := there.append
  have whole := wrap (ordered s parts.1) (by omega) parts.2
  rw [List.length_append, ← Nat.add_assoc]
  exact whole

mutual

/-- Building a type numbers the declarations in it in order. -/
theorem build_numbers (e : Expr) : Numbers [] (build outsideBuilder e) Ty.inlines := by
  match e with
  | .name path args =>
    unfold build
    refine (buildAll_numbers args).bind fun ts => ?_
    split
    · rename_i plain
      have none : ts = [] := List.isEmpty_iff.1 (Bool.and_eq_true_iff.1 plain).1
      exact none ▸ numbers_pure rfl
    · exact numbers_pure (Ty.inlines_eq (.reference ..)).symm
  | .literal value =>
    unfold build
    exact numbers_pure rfl
  | .longNumber =>
    unfold build
    exact numbers_throw
  | .query path =>
    unfold build
    exact numbers_pure (a := queried path (.reference (.str path) .external [] .null)) rfl
  | .operator word target =>
    unfold build
    refine (build_numbers target).bind fun t => numbers_pure ?_
    simp [Ty.inlines_eq (.operator ..), Ty.children]
  | .array element =>
    unfold build
    refine (build_numbers element).bind fun t => numbers_pure ?_
    simp [Ty.inlines_eq (.array _), Ty.children]
  | .union parts =>
    unfold build
    exact (buildAll_numbers parts).bind fun ts => numbers_pure (Ty.inlines_eq (.union ts)).symm
  | .intersection parts =>
    unfold build
    exact (buildAll_numbers parts).bind fun ts => numbers_pure (Ty.inlines_eq (.intersection ts)).symm
  | .tuple elements =>
    unfold build
    exact (buildAll_numbers elements).bind fun ts => numbers_pure (Ty.inlines_eq (.tuple ts)).symm
  | .object members =>
    unfold build
    exact (buildMembers_numbers members).bind fun ms => numbers_inline numbered_object
  | .function parameters result =>
    unfold build
    refine (buildParameters_numbers parameters).bind fun ps => ?_
    exact ((build_numbers result).frame _).bind fun r => numbers_inline numbered_function

theorem buildAll_numbers (es : List Expr) :
    Numbers [] (buildAll outsideBuilder es) fun ts => ts.flatMap Ty.inlines := by
  match es with
  | [] =>
    unfold buildAll
    exact numbers_pure rfl
  | e :: es =>
    unfold buildAll
    refine (build_numbers e).bind fun t => ?_
    exact ((buildAll_numbers es).frame _).bind fun ts => numbers_pure rfl

theorem buildMembers_numbers (es : List (String × Expr)) :
    Numbers [] (buildMembers outsideBuilder es) fun ms => ms.flatMap fun m => m.2.inlines := by
  match es with
  | [] =>
    unfold buildMembers
    exact numbers_pure rfl
  | (name, e) :: es =>
    unfold buildMembers
    refine (build_numbers e).bind fun t => ?_
    exact ((buildMembers_numbers es).frame _).bind fun ts => numbers_pure rfl

theorem buildParameters_numbers (es : List ((String × Marks) × Expr)) :
    Numbers [] (buildParameters outsideBuilder es) fun ps => ps.flatMap fun p => p.2.inlines := by
  match es with
  | [] =>
    unfold buildParameters
    exact numbers_pure rfl
  | (name, e) :: es =>
    unfold buildParameters
    refine (build_numbers e).bind fun t => ?_
    exact ((buildParameters_numbers es).frame _).bind fun ts => numbers_pure rfl

end

end TypeExpr

end DocTree
