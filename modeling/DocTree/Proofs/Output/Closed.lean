import DocTree.Proofs.Output.Reader
import DocTree.Proofs.Resolve.Completeness
import DocTree.Proofs.Resolve.Reached

/-!
# Closed output

* `Single.no_cycle`, `Single.total` : where every node is held in one place, and the root in none, ways
  from the root do not meet again;
* `Store.trail`, `nodup_trail` : the nodes that are written with a node, each of them once;
* `Closed v` : no number is written twice, and references point at what is written;
* `closed_of_reached` : the output is closed, after any number of passes.
-/

namespace DocTree

variable {g : Ground} {s : Store} {w : Workspace} {root a b c : NodeId}

/-! ## Ways from the root -/

theorem Store.Reaches.holder (step : b ∈ (s.node a).successors) (way : s.Reaches b a) :
    ∃ c, a ∈ (s.node c).successors ∧ s.Reaches a c := by
  rcases Relation.ReflTransGen.cases_tail way with rfl | ⟨c, before, last⟩
  · exact ⟨a, step, .refl a⟩
  · exact ⟨c, last, (Store.Reaches.single step).trans before⟩

theorem Single.no_cycle (h : Single s) (free : ∀ c, root ∉ (s.node c).successors) (way : s.Reaches root a)
    (step : b ∈ (s.node a).successors) : ¬s.Reaches b a := by
  induction way generalizing b with
  | refl =>
    intro back
    obtain ⟨c, held, _⟩ := Store.Reaches.holder step back
    exact free c held
  | @tail x y _ edge ih =>
    intro back
    -- The cycle comes to `y` from the same node as the way does, so that node is on the cycle, too.
    obtain ⟨c, held, around⟩ := Store.Reaches.holder step back
    cases h.holder held edge
    exact ih edge around

/-- What leads to one node lies on one way. -/
theorem Single.total (h : Single s) (way : s.Reaches a c) (way' : s.Reaches b c) : s.Reaches a b ∨ s.Reaches b a := by
  induction way with
  | refl => exact Or.inr way'
  | @tail x y before step ih =>
    rcases Relation.ReflTransGen.cases_tail way' with rfl | ⟨x', before', step'⟩
    · exact Or.inl (before.tail step)
    · cases h.holder step step'
      exact ih before'

/-! ## What is written with a node -/

namespace Store

/-- The nodes in the form of a node with at most `depth` levels, in order. -/
def trail (s : Store) : Nat → NodeId → List NodeId
  | 0, _ => []
  | depth + 1, id => id :: (s.written id).flatMap (s.trail depth)

theorem written_subperm (strays : s.strays = .empty) (id : NodeId) :
    (s.written id).Subperm (s.node id).successors := by
  have shown : s.shownChildren id = (s.node id).body.children := by
    unfold shownChildren
    rw [strays, isContainer, children]
    cases (s.node id).body <;> rfl
  rw [written, shown]
  obtain ⟨name, kind, parent, body⟩ := s.node id
  refine List.subperm_iff_count.2 fun c => ?_
  cases body <;>
    simp only [writtenNodes, writtenTypes, Body.children, Node.successors_eq, Node.parts, List.flatMap_append,
      List.flatMap_nil, Node.flatMap_enters_node, Node.flatMap_enters_type, List.count_append, List.count_nil] <;>
    omega

theorem ids_perm_trail (s : Store) (depth : Nat) (id : NodeId) :
    (s.nodeValueDepth depth id).ids.Perm ((s.trail depth id).map fun id : NodeId => Value.int id) := by
  induction depth generalizing id with
  | zero => exact .refl _
  | succ depth ih =>
    refine (s.ids_nodeValueDepth depth id).trans ?_
    rw [trail, List.map_cons, List.map_flatMap]
    exact (List.Perm.flatMap_left _ fun c _ => ih c).cons _

theorem reaches_of_mem_trail (strays : s.strays = .empty) {depth : Nat} (mem : b ∈ s.trail depth a) :
    s.Reaches a b := by
  induction depth generalizing a with
  | zero => cases mem
  | succ depth ih =>
    rcases List.mem_cons.1 mem with rfl | inner
    · exact .refl _
    · obtain ⟨c, held, inside⟩ := List.mem_flatMap.1 inner
      exact (Reaches.single ((written_subperm strays a).subset held)).trans (ih inside)

/-- No node is written twice. -/
theorem nodup_trail (strays : s.strays = .empty) (h : Single s) (free : ∀ c, root ∉ (s.node c).successors) (depth : Nat)
    (way : s.Reaches root a) : (s.trail depth a).Nodup := by
  induction depth generalizing a with
  | zero => exact List.nodup_nil
  | succ depth ih =>
    obtain ⟨ids, perm, sub⟩ := written_subperm strays a
    have nodup : (s.written a).Nodup := perm.nodup_iff.1 ((h.nodup a).sublist sub)
    have held : ∀ {c}, c ∈ s.written a → c ∈ (s.node a).successors := fun mem => sub.subset (perm.mem_iff.2 mem)
    refine List.nodup_cons.2 ⟨fun mem => ?_, List.nodup_flatMap.2 ⟨fun c mem => ?_, ?_⟩⟩
    · obtain ⟨c, inside, back⟩ := List.mem_flatMap.1 mem
      exact h.no_cycle free way (held inside) (reaches_of_mem_trail strays back)
    · exact ih (way.trans (.single (held mem)))
    · refine List.Nodup.pairwise_of_forall_ne (nodup) fun c mem d mem' ne => ?_
      -- If both lead to one node, one of the two leads to the other, and hence back to `a`.
      have apart : ∀ {c d}, c ∈ s.written a → d ∈ s.written a → c ≠ d → ¬s.Reaches c d := by
        intro c d mem mem' ne path
        rcases Relation.ReflTransGen.cases_tail path with same | ⟨x, before, last⟩
        · exact ne same.symm
        · cases h.holder last (held mem')
          exact h.no_cycle free way (held mem) before
      intro x inside inside'
      rcases h.total (reaches_of_mem_trail strays inside) (reaches_of_mem_trail strays inside') with path | path
      · exact apart mem mem' ne path
      · exact apart mem' mem ne.symm path

theorem mem_trail_of_stepsTo {n depth : Nat} (path : StepsTo (fun x y => y ∈ s.written x) n a b) (enough : n < depth) :
    b ∈ s.trail depth a := by
  induction path generalizing depth with
  | refl a =>
    obtain ⟨depth, rfl⟩ := Nat.exists_eq_add_one_of_ne_zero (Nat.ne_of_gt enough)
    exact List.mem_cons_self
  | head first _ ih =>
    obtain ⟨depth, rfl⟩ := Nat.exists_eq_add_one_of_ne_zero (Nat.ne_of_gt (Nat.zero_lt_of_lt enough))
    exact List.mem_cons_of_mem _ (List.mem_flatMap.2 ⟨_, first, ih (Nat.lt_of_succ_lt_succ enough)⟩)

theorem mem_trail_of_written (strays : s.strays = .empty)
    (way : Relation.ReflTransGen (fun x y => y ∈ s.written x) a b) : b ∈ s.trail (s.nodes.size + 1) a := by
  obtain ⟨n, bound, path⟩ := exists_stepsTo (Finset.range s.nodes.size)
    (fun x y step => Finset.mem_range.2 (lt_of_mem_successors ((written_subperm strays x).subset step))) way
  rw [Finset.card_range] at bound
  exact mem_trail_of_stepsTo path (Nat.lt_succ_of_le bound)

theorem nodeValueDepth_eq {depth : Nat} (deep : ∀ n b, StepsTo (fun x y => y ∈ s.written x) n a b → n < depth)
    (more : Nat) : s.nodeValueDepth (depth + more) a = s.nodeValueDepth depth a := by
  induction depth generalizing a with
  | zero => exact absurd (deep 0 a (.refl a)) (Nat.not_lt_zero 0)
  | succ depth ih =>
    rw [Nat.add_right_comm]
    exact nodeValueDepth_congr s fun c held =>
      ih fun n b path => Nat.lt_of_succ_lt_succ (deep (n + 1) b (.head held path))

theorem lt_length_trail {n : Nat} (path : StepsTo (fun x y => y ∈ s.written x) n a b) :
    n < (s.trail (n + 1) a).length := by
  induction path with
  | refl a => exact Nat.zero_lt_succ _
  | @head n a c b first _ ih =>
    obtain ⟨before, after, eq⟩ := List.append_of_mem first
    rw [trail, eq, List.flatMap_append, List.flatMap_cons, List.length_cons, List.length_append, List.length_append]
    omega

theorem lt_size_of_stepsTo (strays : s.strays = .empty) (h : Single s) (free : ∀ c, root ∉ (s.node c).successors)
    (inside : ∀ {b}, s.Reaches root b → b < s.nodes.size) (way : s.Reaches root a) {n : Nat}
    (path : StepsTo (fun x y => y ∈ s.written x) n a b) : n < s.nodes.size := by
  refine Nat.lt_of_lt_of_le (lt_length_trail path) ?_
  have below : s.trail (n + 1) a ⊆ List.range s.nodes.size := fun c mem =>
    List.mem_range.2 (inside (way.trans (reaches_of_mem_trail strays mem)))
  have bound := ((nodup_trail strays h free (n + 1) way).subperm below).length_le
  rwa [List.length_range] at bound

end Store

/-! ## Closed output -/

theorem Ty.mem_children_of_items {t c : Ty} (mem : c ∈ t.items) : c ∈ t.children := by
  cases t with
  | reference _ _ _ _ | union _ | intersection _ | tuple _ | template _ _ => exact mem
  | _ => cases mem

theorem Ty.isWritable_of_isComplete {t : Ty} (complete : t.isComplete = true) : t.isWritable = true := by
  refine List.all_eq_true.2 fun u inside => List.all_eq_true.2 fun c item => ?_
  exact List.all_eq_true.1 complete c (mem_nested_of_children inside (mem_children_of_items item))

/-- What is written of the types of a node is among its parts. -/
theorem Node.type_mem_parts {n : Node} {t : Ty} (mem : t ∈ Store.writtenTypes n.body) : Part.type t ∈ n.parts := by
  obtain ⟨name, kind, parent, body⟩ := n
  have types : ∀ {ts : List Ty}, t ∈ ts → Part.type t ∈ ts.map Part.type := List.mem_map_of_mem
  cases body with
  | bare => cases mem
  | project _ => cases mem
  | declaration b =>
    rcases List.mem_append.1 mem with mem | implemented
    · rcases List.mem_append.1 mem with type | extended
      · exact List.mem_append_left _ (List.mem_append_left _ (List.mem_append_right _ (types type)))
      · exact List.mem_append_right _ (types (List.mem_append_left _ (List.mem_append_right _ extended)))
    · exact List.mem_append_right _ (types (List.mem_append_right _ implemented))
  | signature b =>
    refine List.mem_append_right _ (types ?_)
    exact List.mem_append_left _ (List.mem_append_left _ (List.mem_append_left _ mem))
  | parameter b => exact types mem
  | typeParameter b => exact types mem

/-- Children and limbs are written with their node. -/
theorem Store.mem_written {c : NodeId} (held : Part.node c ∈ (s.node a).parts) : c ∈ s.written a := by
  rcases Node.node_mem_parts.1 held with child | limb
  · refine List.mem_append_right _ ?_
    unfold shownChildren
    rw [if_pos]
    · exact child
    · unfold isContainer
      cases eq : (s.node a).body with
      | project _ => rfl
      | declaration _ => rfl
      | _ =>
        rw [eq] at child
        cases child
  · refine List.mem_append_left _ (List.mem_append_left _ ?_)
    unfold Node.limbs at limb
    unfold writtenNodes
    cases eq : (s.node a).body with
    | signature b =>
      rw [eq] at limb
      exact (List.perm_append_comm.mem_iff).1 limb
    | _ =>
      rw [eq] at limb
      exact limb

theorem Layout.canWriteDepth (h : Layout g s) (depth : Nat) (id : NodeId) : s.canWriteDepth depth id = true := by
  induction depth generalizing id with
  | zero => rfl
  | succ depth ih =>
    unfold Store.canWriteDepth
    simp only [Bool.and_eq_true, List.all_eq_true, h.strays, Strays.hasLabel_empty, true_and]
    exact ⟨fun t mem => Ty.isWritable_of_isComplete (h.type (Node.type_mem_parts mem)).complete, fun c _ => ih c⟩

theorem Layout.written_of_reaches (h : Layout g s) (proper : g.Proper b) (way : s.Reaches a b) :
    Relation.ReflTransGen (fun x y => y ∈ s.written x) a b := by
  induction way with
  | refl => exact .refl
  | @tail x y _ step ih =>
    have outside : ¬(y < g.base ∧ y ≠ g.project) := by
      rintro ⟨below, ne⟩
      exact proper.elim ne fun above => Nat.not_lt_of_le above below
    rcases Node.mem_successors.1 step with held | ⟨t, held, inline⟩
    · rcases h.successor step with ⟨above, _⟩ | inside
      · exact (ih above).tail (Store.mem_written held)
      · exact absurd inside outside
    · exact absurd ((h.type held).inlines inline) outside

theorem Layout.project_free (h : Layout g s) (c : NodeId) : g.project ∉ (s.node c).successors := by
  intro held
  rcases h.successor held with ⟨_, above, _⟩ | ⟨_, ne⟩
  · exact h.ne_project above rfl
  · exact ne rfl

theorem Stands.lt_of_stepsTo (h : Stands document g w) (way : w.store.Reaches g.project a) {n : Nat}
    (path : StepsTo (fun x y => y ∈ w.store.written x) n a b) : n < w.store.nodes.size + 1 := by
  have layout := h.sound.layout
  exact Nat.lt_succ_of_lt (Store.lt_size_of_stepsTo layout.strays h.orderly.single layout.project_free
    (fun way => layout.lt_of_reaches way layout.project_lt_size) way path)

/-- Every number is written once, and references point at what is written. -/
structure Closed (v : Value) : Prop where
  distinct : v.ids.Nodup
  targets : ∀ target ∈ v.targets, target ∈ v.ids

theorem Store.target_of_written {depth : Nat} {v : Value} (mem : v ∈ (s.nodeValueDepth depth a).targets) :
    ∃ x, ∃ t ∈ writtenTypes (s.node x).body, ∃ link ∈ t.links, ∃ target,
      s.resolve link = some target ∧ v = .int target := by
  induction depth generalizing a with
  | zero => cases mem
  | succ depth ih =>
    rcases s.targets_nodeValueDepth mem with ⟨t, here⟩ | ⟨c, _, inside⟩
    · exact ⟨a, t, here⟩
    · exact ih inside

/-- The output of a workspace: it can be written, it is whole, however many levels one allows for, and closed. -/
structure Output (s : Store) (root : NodeId) : Prop where
  canWrite : s.canWrite root = true
  whole : ∀ depth > s.nodes.size, s.nodeValueDepth depth root = s.nodeValue root
  closed : Closed (s.nodeValue root)

/-- The output is closed, whatever document was loaded, after any number of passes. -/
theorem closed_of_reached {document : Value} (reached : w.Reached document) : Output w.store w.project := by
  obtain ⟨g, stands⟩ := reached.stands
  have sound := stands.sound
  have orderly := stands.orderly
  have layout := sound.layout
  have strays := layout.strays
  have ids := Store.ids_perm_trail w.store (w.store.nodes.size + 1) g.project
  rw [sound.project]
  refine ⟨layout.canWriteDepth _ _, fun depth more => ?_, ⟨ids.nodup_iff.2 (List.Nodup.map ?_ ?_), fun v mem =>
    ids.mem_iff.2 ?_⟩⟩
  · obtain ⟨extra, rfl⟩ := Nat.exists_eq_add_of_le more
    exact Store.nodeValueDepth_eq (fun n b path => stands.lt_of_stepsTo (.refl _) path) extra
  · exact fun a b same => Int.ofNat.inj (Value.int.inj same)
  · exact Store.nodup_trail strays orderly.single layout.project_free _ (.refl _)
  · obtain ⟨x, t, held, link, leads, target, resolved, rfl⟩ := Store.target_of_written mem
    refine List.mem_map_of_mem ?_
    rcases (layout.type (Node.type_mem_parts held)).links leads with rfl | ⟨symbol, _, rfl⟩
    · cases resolved
    · have bound : w.nodeOf? symbol = some target := by
        rw [← sound.project] at resolved
        exact resolved
      have proper : g.Proper target := Or.inr (sound.bound bound).1
      exact Store.mem_trail_of_written strays (layout.written_of_reaches proper (orderly.attached bound))

/-- After a document was loaded, and after a pass over it. -/
theorem closed_of_reached_leftover : Output besideLeftover.store besideLeftover.project ∧
    Output besideLeftover.resolve.2.store besideLeftover.resolve.2.project :=
  ⟨closed_of_reached (.opened opened_leftover), closed_of_reached (.resolved (.opened opened_leftover))⟩

end DocTree
