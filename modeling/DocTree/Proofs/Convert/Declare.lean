import DocTree.Proofs.Store.Grow
import DocTree.Proofs.Workspace.Kept

/-!
# What declaring a symbol adds

* `Adds w ns w'` : `w'` has the nodes `ns` more than `w`; `adds_addParts`, `adds_addSignature`;
* `signatureNodes`, `signaturesNodes` : the nodes that described signatures become;
* `Description.types` : all types of a description;
* `sprouts_create` : a created declaration;
* `Declared w scope symbol d w'` : everything that is known of the declaration of a symbol: where it
  stands, that its types are those of the description (`sprouts`, `described`), what the symbol is
  bound to; `declared_declare` : declaring leads there.
-/

namespace DocTree

/-! ## The types of a description -/

/-- The types of a described type parameter. -/
def TypeParameterShape.types (shape : TypeParameterShape) : List Ty :=
  shape.constraint.toList ++ shape.fallback.toList

/-- The types of a described signature. -/
def SignatureShape.types (shape : SignatureShape) : List Ty :=
  shape.typeParameters.flatMap TypeParameterShape.types ++ shape.parameters.flatMap (·.type.toList)
    ++ shape.result.toList

/-- The types of a description, without those of its members. -/
def Description.types (d : Description) : List Ty :=
  d.typeParameters.flatMap TypeParameterShape.types ++ d.signatures.flatMap SignatureShape.types
    ++ (d.type.toList ++ d.extendedTypes ++ d.implementedTypes)

namespace Workspace

/-! ## Adding nodes -/

/-- `w'` has some more nodes than `w`, to which no symbol is bound. -/
structure Adds (w : Workspace) (ns : List Node) (w' : Workspace) : Prop where
  kept : Kept w w'
  size : w'.store.nodes.size = w.store.nodes.size + ns.length
  same : ∀ {id}, id < w.store.nodes.size → w'.store.node id = w.store.node id
  holds : w'.store.Holds w.store.nodes.size ns
  bound : w'.index.bound = w.index.bound
  consistent : w.index.Consistent → w'.index.Consistent
  nodeOf? : w.index.Consistent → ∀ symbol, w'.nodeOf? symbol = w.nodeOf? symbol

variable {w w₁ w₂ : Workspace} {ns ms : List Node}

theorem Adds.refl (w : Workspace) : Adds w [] w :=
  ⟨Kept.refl w, rfl, fun _ => rfl, Store.holds_nil _ _, rfl, fun h => h, fun _ _ => rfl⟩

theorem Adds.trans (h : Adds w ns w₁) (h' : Adds w₁ ms w₂) : Adds w (ns ++ ms) w₂ where
  kept := h.kept.trans h'.kept
  size := by rw [h'.size, h.size, List.length_append, Nat.add_assoc]
  same := fun inside => by
    rw [h'.same (by rw [h.size]; exact Nat.lt_add_right _ inside), h.same inside]
  holds := by
    refine Store.holds_append.2 ⟨fun i lt => ?_, h.size ▸ h'.holds⟩
    rw [h'.same (by rw [h.size]; exact Nat.add_lt_add_left lt _)]
    exact h.holds i lt
  bound := h'.bound.trans h.bound
  consistent := fun c => h'.consistent (h.consistent c)
  nodeOf? := fun c symbol => (h'.nodeOf? (h.consistent c) symbol).trans (h.nodeOf? c symbol)

theorem adds_addNode (w : Workspace) (n : Node) : Adds w [n] { w with store := (w.store.addNode n).2 } where
  kept := ⟨rfl, fun here => here, rfl, rfl, rfl, rfl, rfl, fun here => here⟩
  size := Store.size_addNode ..
  same := fun inside => by rw [Store.node_addNode, if_neg (Nat.ne_of_lt inside)]
  holds := by
    refine Store.holds_cons.2 ⟨?_, Store.holds_nil _ _⟩
    rw [Store.node_addNode, if_pos rfl]
  bound := rfl
  consistent := fun c => c
  nodeOf? := fun _ _ => rfl

theorem Adds.list (h : Adds w ns w₁) (id : NodeId) : Adds w ns (w₁.list id) where
  kept := h.kept.trans ⟨rfl, fun here => here, rfl, rfl, rfl, rfl, rfl, fun here => here⟩
  size := h.size
  same := h.same
  holds := h.holds
  bound := (congrArg Index.bound (index_list w₁ id)).trans h.bound
  consistent := fun c => index_list w₁ id ▸ (h.consistent c).list id
  nodeOf? := fun c symbol => by
    rw [← h.nodeOf? c]
    unfold Workspace.nodeOf?
    rw [index_list, Index.nodeOf?_list (h.consistent c)]

/-- The first added node may still change. -/
theorem Adds.modifyBody {n : Node} (h : Adds w (n :: ns) w₁) (f : Body → Body) :
    Adds w ({ n with body := f n.body } :: ns)
      { w₁ with store := w₁.store.modifyBody w.store.nodes.size f } := by
  have inside : w.store.nodes.size < w₁.store.nodes.size := by
    rw [h.size]
    exact Nat.lt_add_of_pos_right (Nat.zero_lt_succ _)
  have node := Store.node_modifyBody inside f
  obtain ⟨here, rest⟩ := Store.holds_cons.1 h.holds
  refine ⟨h.kept.trans ⟨rfl, fun here => here, rfl, rfl, rfl, rfl, rfl, fun here => here⟩, ?_, ?_, ?_,
    h.bound, h.consistent, h.nodeOf?⟩
  · exact (Store.size_modifyNode ..).trans h.size
  · intro id lt
    rw [node, if_neg (Nat.ne_of_lt lt)]
    exact h.same lt
  · refine Store.holds_cons.2 ⟨?_, fun i lt => ?_⟩
    · rw [node, if_pos rfl, here]
    · rw [node, if_neg (by unfold NodeId at *; omega)]
      exact rest i lt

theorem adds_addPart (w : Workspace) (n : Node) : Adds w [n] (w.addPart n).2 := (adds_addNode w n).list _

theorem adds_addParts (w : Workspace) (ns : List Node) :
    (w.addParts ns).1 = List.range' w.store.nodes.size ns.length ∧ Adds w ns (w.addParts ns).2 := by
  induction ns generalizing w with
  | nil => exact ⟨rfl, Adds.refl w⟩
  | cons n ns ih =>
    have first := adds_addPart w n
    obtain ⟨ids, rest⟩ := ih (w.addPart n).2
    refine ⟨?_, first.trans rest⟩
    show (w.addPart n).1 :: ((w.addPart n).2.addParts ns).1 = _
    rw [ids, first.size]
    rfl

/-! ## Signatures -/

def signatureNodes (owner : Node) (parent id : NodeId) (shape : SignatureShape) : List Node :=
  ⟨(signatureHead owner).2, (signatureHead owner).1, some parent,
      .signature
        { type := shape.result
          typeParameters := List.range' (id + 1) shape.typeParameters.length
          parameters :=
            List.range' (id + 1 + shape.typeParameters.length) shape.parameters.length }⟩
    :: (shape.typeParameters.map (typeParameterNode id) ++ shape.parameters.map (parameterNode id))

def signaturesNodes (owner : Node) (parent : NodeId) : NodeId → List SignatureShape → List Node
  | _, [] => []
  | id, shape :: shapes =>
    signatureNodes owner parent id shape
      ++ signaturesNodes owner parent (id + (signatureNodes owner parent id shape).length) shapes

def signatureIds (owner : Node) (parent : NodeId) : NodeId → List SignatureShape → List NodeId
  | _, [] => []
  | id, shape :: shapes =>
    id :: signatureIds owner parent (id + (signatureNodes owner parent id shape).length) shapes

theorem adds_addSignature (w : Workspace) (parent : NodeId) (shape : SignatureShape) :
    (w.addSignature parent shape).1 = w.store.nodes.size ∧
      Adds w (signatureNodes (w.store.node parent) parent w.store.nodes.size shape)
        (w.addSignature parent shape).2 := by
  refine ⟨rfl, ?_⟩
  have head := adds_addNode w ⟨(signatureHead (w.store.node parent)).2,
    (signatureHead (w.store.node parent)).1, some parent, .signature { type := shape.result }⟩
  obtain ⟨ids, first⟩ :=
    adds_addParts _ (shape.typeParameters.map (typeParameterNode w.store.nodes.size))
  obtain ⟨ids', second⟩ := adds_addParts _ (shape.parameters.map (parameterNode w.store.nodes.size))
  have parts := (head.trans first).trans second
  rw [List.cons_append, List.nil_append, List.cons_append] at parts
  have filled := (parts.modifyBody fun _ => .signature
    { type := shape.result
      typeParameters := List.range' (w.store.nodes.size + 1) shape.typeParameters.length
      parameters := List.range' (w.store.nodes.size + 1 + shape.typeParameters.length)
        shape.parameters.length }).list w.store.nodes.size
  rw [head.size, List.length_map] at ids
  rw [(head.trans first).size, List.length_map, List.length_append, List.length_map,
    ← Nat.add_assoc] at ids'
  unfold addSignature signatureNodes
  simp only [List.length_cons, List.length_nil, Nat.zero_add] at ids ids'
  rw [← ids, ← ids'] at filled
  rw [← ids, ← ids']
  exact filled

theorem adds_addSignatures (w : Workspace) {parent : NodeId} (inside : parent < w.store.nodes.size)
    (shapes : List SignatureShape) :
    (w.addSignatures parent shapes).1 =
        signatureIds (w.store.node parent) parent w.store.nodes.size shapes ∧
      Adds w (signaturesNodes (w.store.node parent) parent w.store.nodes.size shapes)
        (w.addSignatures parent shapes).2 := by
  induction shapes generalizing w with
  | nil => exact ⟨rfl, Adds.refl w⟩
  | cons shape shapes ih =>
    obtain ⟨id, first⟩ := adds_addSignature w parent shape
    have inside' : parent < (w.addSignature parent shape).2.store.nodes.size := by
      rw [first.size]
      exact Nat.lt_add_right _ inside
    obtain ⟨ids, rest⟩ := ih _ inside'
    rw [first.same inside, first.size] at ids rest
    refine ⟨?_, first.trans rest⟩
    show (w.addSignature parent shape).1 :: _ = _
    rw [signatureIds, id, ← ids]
    rfl

/-! ## What the added nodes hold -/

variable {s : Store}

theorem parts_typeParameterNode (parent : NodeId) (shape : TypeParameterShape) :
    (typeParameterNode parent shape).parts = shape.types.map .type := rfl

theorem parts_parameterNode (parent : NodeId) (shape : ParameterShape) :
    (parameterNode parent shape).parts = shape.type.toList.map .type := rfl

/-- Nodes that hold types only. -/
theorem enclosed_leaves {α : Type} {make : α → Node} {typesOf : α → List Ty}
    (parts : ∀ a, (make a).parts = (typesOf a).map .type) (shapes : List α) {id : NodeId}
    (h : s.Holds id (shapes.map make)) : s.Enclosed id (id + shapes.length) (shapes.flatMap typesOf) := by
  have found : ∀ {id'}, id ≤ id' → id' < id + shapes.length → ∃ a ∈ shapes, s.node id' = make a := by
    intro id' above below
    have mem : id' ∈ List.range' id (shapes.map make).length := by
      rw [List.length_map]
      exact List.mem_range'_1.2 ⟨above, below⟩
    have mem := h.mem_of_range mem
    obtain ⟨a, mem, eq⟩ := List.mem_map.1 mem
    exact ⟨a, mem, eq.symm⟩
  have nodeless : ∀ {id'}, id ≤ id' → id' < id + shapes.length → ∀ c, Part.node c ∉ (s.node id').parts := by
    intro id' above below c mem
    obtain ⟨a, here, eq⟩ := found above below
    rw [eq, parts] at mem
    obtain ⟨t', mem, same⟩ := List.mem_map.1 mem
    cases same
  refine ⟨fun above below t mem => ?_, fun above below c mem => ?_, fun above below => ?_⟩
  · obtain ⟨a, here, eq⟩ := found above below
    rw [eq, parts] at mem
    obtain ⟨t', mem, same⟩ := List.mem_map.1 mem
    cases same
    exact List.mem_flatMap.2 ⟨a, here, mem⟩
  · exact absurd (Node.node_mem_parts.2 (Or.inr mem)) (nodeless above below c)
  · exact List.eq_nil_iff_forall_not_mem.2 fun c mem =>
      nodeless above below c (Node.mem_parts_of_mem_children mem)

theorem once_leaves {α : Type} {make : α → Node} {typesOf : α → List Ty}
    (parts : ∀ a, (make a).parts = (typesOf a).map .type) (shapes : List α) :
    (shapes.map make).flatMap Node.successors = (shapes.flatMap typesOf).flatMap Ty.inlines := by
  rw [List.flatMap_map, List.flatMap_assoc]
  congr 1
  funext a
  rw [Node.successors_eq, parts, Node.flatMap_enters_type]

theorem length_signatureNodes (owner : Node) (parent id : NodeId) (shape : SignatureShape) :
    (signatureNodes owner parent id shape).length =
      1 + shape.typeParameters.length + shape.parameters.length := by
  unfold signatureNodes
  simp only [List.length_cons, List.length_append, List.length_map]
  omega

section Signature

variable {owner : Node} {parent id : NodeId} {shape : SignatureShape}

/-- What a signature holds. -/
theorem mem_parts_signature (h : s.Holds id (signatureNodes owner parent id shape)) {p : Part} :
    p ∈ (s.node id).parts ↔
      (∃ c ∈ List.range' (id + 1) (shape.typeParameters.length + shape.parameters.length), p = .node c) ∨
        ∃ t ∈ shape.result.toList, p = .type t := by
  rw [(Store.holds_cons.1 h).1]
  simp only [Node.parts, List.mem_append, List.mem_map, Option.toList_none, List.append_nil]
  rw [← List.range'_append_1]
  constructor
  · rintro (⟨c, mem, eq⟩ | ⟨t, mem, eq⟩)
    · exact Or.inl ⟨c, List.mem_append.2 mem.symm, eq.symm⟩
    · exact Or.inr ⟨t, mem, eq.symm⟩
  · rintro (⟨c, mem, eq⟩ | ⟨t, mem, eq⟩)
    · exact Or.inl ⟨c, (List.mem_append.1 mem).symm, eq.symm⟩
    · exact Or.inr ⟨t, mem, eq.symm⟩

theorem limbOf_typeParameter {shapes : List TypeParameterShape} {first c : NodeId}
    (h : s.Holds first (shapes.map (typeParameterNode id))) (mem : c ∈ List.range' first shapes.length) :
    s.LimbOf id c := by
  obtain ⟨a, _, eq⟩ := List.mem_map.1 (h.mem_of_range (by rwa [List.length_map] : c ∈ _))
  exact ⟨eq ▸ rfl, fun b => eq ▸ nofun⟩

theorem limbOf_parameter {shapes : List ParameterShape} {first c : NodeId}
    (h : s.Holds first (shapes.map (parameterNode id))) (mem : c ∈ List.range' first shapes.length) :
    s.LimbOf id c := by
  obtain ⟨a, _, eq⟩ := List.mem_map.1 (h.mem_of_range (by rwa [List.length_map] : c ∈ _))
  exact ⟨eq ▸ rfl, fun b => eq ▸ nofun⟩

theorem enclosed_signature (h : s.Holds id (signatureNodes owner parent id shape)) :
    s.Enclosed id (id + (signatureNodes owner parent id shape).length) shape.types := by
  obtain ⟨head, rest⟩ := Store.holds_cons.1 h
  obtain ⟨first, second⟩ := Store.holds_append.1 rest
  have leaves := (enclosed_leaves (parts_typeParameterNode id) _ first).append
    (by simpa using enclosed_leaves (parts_parameterNode id) _ second) (Nat.le_add_right _ _)
  have high : id + (signatureNodes owner parent id shape).length =
      id + 1 + shape.typeParameters.length + shape.parameters.length := by
    rw [length_signatureNodes]
    unfold NodeId
    omega
  rw [high]
  refine ⟨fun {id'} above below t mem => ?_, fun {id'} above below c mem => ?_,
    fun {id'} above below => ?_⟩
  · by_cases here : id' = id
    · subst here
      rcases (mem_parts_signature h).1 mem with ⟨c, _, eq⟩ | ⟨t', mem, eq⟩
      · cases eq
      · cases eq
        exact List.mem_append_right _ mem
    · exact List.mem_append_left _
        (leaves.type (Nat.lt_of_le_of_ne above fun eq => here eq.symm) below mem)
  · by_cases here : id' = id
    · subst here
      rcases (mem_parts_signature h).1 (Node.node_mem_parts.2 (Or.inr mem)) with ⟨c', mem, eq⟩ | ⟨t', _, eq⟩
      · cases eq
        rw [← List.range'_append_1] at mem
        rcases List.mem_append.1 mem with mem | mem
        · obtain ⟨low, high⟩ := List.mem_range'_1.1 mem
          exact ⟨low, Nat.lt_add_right _ high, limbOf_typeParameter first mem⟩
        · obtain ⟨low, high⟩ := List.mem_range'_1.1 mem
          rw [List.length_map] at second
          exact ⟨Nat.le_of_add_right_le low, high, limbOf_parameter second mem⟩
      · cases eq
    · exact leaves.limb (Nat.lt_of_le_of_ne above fun eq => here eq.symm) below mem
  · by_cases here : id' = id
    · subst here
      rw [Store.children, head]
      rfl
    · exact leaves.children (Nat.lt_of_le_of_ne above fun eq => here eq.symm) below

theorem once_signature (owner : Node) (parent id : NodeId) (shape : SignatureShape) :
    ((signatureNodes owner parent id shape).flatMap Node.successors).Perm
      (List.range' (id + 1) (shape.typeParameters.length + shape.parameters.length)
        ++ shape.types.flatMap Ty.inlines) := by
  unfold signatureNodes
  rw [List.flatMap_cons, List.flatMap_append, once_leaves (parts_typeParameterNode id),
    once_leaves (parts_parameterNode id), Node.successors_eq]
  simp only [Node.parts, Option.toList_none, List.append_nil, List.flatMap_append, Node.flatMap_enters_node,
    Node.flatMap_enters_type, SignatureShape.types, ← List.range'_append_1]
  refine List.perm_iff_count.2 fun a => ?_
  simp only [List.count_append]
  omega

/-- Every type of a described signature is met from the signature. -/
theorem reaches_signature_type (h : s.Holds id (signatureNodes owner parent id shape)) {t : Ty}
    (mem : t ∈ shape.types) : ∃ id', s.Reaches id id' ∧ Part.type t ∈ (s.node id').parts := by
  obtain ⟨head, rest⟩ := Store.holds_cons.1 h
  obtain ⟨first, second⟩ := Store.holds_append.1 rest
  have step : ∀ {c}, c ∈ List.range' (id + 1) (shape.typeParameters.length + shape.parameters.length) →
      s.Reaches id c := fun mem =>
    .single (Node.mem_successors.2 (Or.inl ((mem_parts_signature h).2 (Or.inl ⟨_, mem, rfl⟩))))
  rw [← List.range'_append_1] at step
  rcases List.mem_append.1 mem with mem | mem
  · rcases List.mem_append.1 mem with mem | mem
    · obtain ⟨a, here, mem⟩ := List.mem_flatMap.1 mem
      obtain ⟨c, inside, eq⟩ := first.exists_of_mem (List.mem_map_of_mem here)
      rw [List.length_map] at inside
      refine ⟨c, step (List.mem_append_left _ inside), ?_⟩
      rw [eq, parts_typeParameterNode]
      exact List.mem_map_of_mem mem
    · obtain ⟨a, here, mem⟩ := List.mem_flatMap.1 mem
      obtain ⟨c, inside, eq⟩ := second.exists_of_mem (List.mem_map_of_mem here)
      rw [List.length_map, List.length_map] at inside
      refine ⟨c, step (List.mem_append_right _ inside), ?_⟩
      rw [eq, parts_parameterNode]
      exact List.mem_map_of_mem mem
  · exact ⟨id, .refl id, (mem_parts_signature h).2 (Or.inr ⟨t, mem, rfl⟩)⟩

end Signature

theorem enclosed_signatures {owner : Node} {parent id : NodeId} {shapes : List SignatureShape}
    (h : s.Holds id (signaturesNodes owner parent id shapes)) :
    s.Enclosed id (id + (signaturesNodes owner parent id shapes).length)
      (shapes.flatMap SignatureShape.types) := by
  induction shapes generalizing id with
  | nil =>
    exact ⟨fun above below => absurd below (Nat.not_lt_of_le above),
      fun above below => absurd below (Nat.not_lt_of_le above),
      fun above below => absurd below (Nat.not_lt_of_le above)⟩
  | cons shape shapes ih =>
    obtain ⟨first, rest⟩ := Store.holds_append.1 h
    rw [signaturesNodes, List.length_append, ← Nat.add_assoc]
    exact (enclosed_signature first).append (ih rest) (Nat.le_add_right _ _)

/-- Signatures and what they hold are no declarations. -/
theorem limb_signatures {owner : Node} {parent id c : NodeId} {shapes : List SignatureShape}
    (h : s.Holds id (signaturesNodes owner parent id shapes))
    (mem : c ∈ List.range' id (signaturesNodes owner parent id shapes).length) (b : DeclarationBody) :
    (s.node c).body ≠ .declaration b := by
  induction shapes generalizing id with
  | nil => cases mem
  | cons shape shapes ih =>
    obtain ⟨first, rest⟩ := Store.holds_append.1 h
    rw [signaturesNodes, List.length_append, ← List.range'_append_1] at mem
    rcases List.mem_append.1 mem with mem | mem
    · have inside := first.mem_of_range mem
      simp only [signatureNodes, List.mem_cons, List.mem_append, List.mem_map] at inside
      rcases inside with eq | ⟨_, _, eq⟩ | ⟨_, _, eq⟩
      · rw [eq]
        exact nofun
      · rw [← eq]
        exact nofun
      · rw [← eq]
        exact nofun
    · exact ih rest mem

theorem limbOf_signature {owner : Node} {parent id : NodeId} {shapes : List SignatureShape}
    (h : s.Holds id (signaturesNodes owner parent id shapes)) {c : NodeId}
    (mem : c ∈ signatureIds owner parent id shapes) :
    (id ≤ c ∧ c < id + (signaturesNodes owner parent id shapes).length) ∧ s.LimbOf parent c := by
  induction shapes generalizing id with
  | nil => cases mem
  | cons shape shapes ih =>
    obtain ⟨first, rest⟩ := Store.holds_append.1 h
    rw [signaturesNodes, List.length_append, ← Nat.add_assoc]
    rcases List.mem_cons.1 mem with rfl | mem
    · have head := (Store.holds_cons.1 first).1
      refine ⟨⟨Nat.le_refl _, ?_⟩, head ▸ rfl, fun b => head ▸ nofun⟩
      rw [length_signatureNodes]
      unfold NodeId at *
      omega
    · obtain ⟨⟨low, high⟩, above⟩ := ih rest mem
      exact ⟨⟨Nat.le_of_add_right_le low, high⟩, above⟩

/-- The nodes of signatures are the signatures and what they hold, each of them once. -/
theorem once_signatures (owner : Node) (parent id : NodeId) (shapes : List SignatureShape) :
    (signatureIds owner parent id shapes ++ (signaturesNodes owner parent id shapes).flatMap Node.successors).Perm
      (List.range' id (signaturesNodes owner parent id shapes).length
        ++ (shapes.flatMap SignatureShape.types).flatMap Ty.inlines) := by
  induction shapes generalizing id with
  | nil => exact .refl _
  | cons shape shapes ih =>
    have head := once_signature owner parent id shape
    have rest := ih (id + (signatureNodes owner parent id shape).length)
    have length := length_signatureNodes owner parent id shape
    have range : List.range' id (signatureNodes owner parent id shape).length =
        id :: List.range' (id + 1) (shape.typeParameters.length + shape.parameters.length) := by
      rw [length, Nat.add_assoc, Nat.add_comm 1]
      rfl
    unfold signaturesNodes signatureIds
    rw [List.length_append, ← List.range'_append_1, range]
    simp only [List.flatMap_append, List.flatMap_cons] at head rest ⊢
    refine List.perm_iff_count.2 fun a => ?_
    have head := List.perm_iff_count.1 head a
    have rest := List.perm_iff_count.1 rest a
    simp only [List.count_append, List.count_cons] at head rest ⊢
    omega

theorem reaches_signatures_type {owner : Node} {parent id : NodeId} {shapes : List SignatureShape}
    (h : s.Holds id (signaturesNodes owner parent id shapes)) {t : Ty}
    (mem : t ∈ shapes.flatMap SignatureShape.types) :
    ∃ c ∈ signatureIds owner parent id shapes, ∃ id', s.Reaches c id' ∧
      Part.type t ∈ (s.node id').parts := by
  induction shapes generalizing id with
  | nil => cases mem
  | cons shape shapes ih =>
    obtain ⟨first, rest⟩ := Store.holds_append.1 h
    rcases List.mem_append.1 mem with mem | mem
    · obtain ⟨id', way, here⟩ := reaches_signature_type first mem
      exact ⟨id, List.mem_cons_self, id', way, here⟩
    · obtain ⟨c, here, way⟩ := ih rest mem
      exact ⟨c, List.mem_cons_of_mem _ here, way⟩

/-! ## Creating -/

/-- A created declaration holds nothing yet. -/
theorem sprouts_create {scope : NodeId} (inside : scope < w.store.nodes.size) (kind : Kind) (name : Value)
    (symbol : Option SymbolId) : w.store.Sprouts scope [] (w.create scope kind name symbol).2.store := by
  have node := fun id => node_create (w := w) kind name symbol inside id
  have last := (node w.store.nodes.size).trans (if_pos rfl)
  have size : (w.create scope kind name symbol).2.store.nodes.size = w.store.nodes.size + 1 := size_create
  have only : ∀ {id}, w.store.nodes.size ≤ id →
      id < (w.create scope kind name symbol).2.store.nodes.size → id = w.store.nodes.size := by
    intro id above below
    rw [size] at below
    omega
  refine ⟨(kept_create w scope kind name symbol).strays, size ▸ Nat.lt_succ_self _, ?_, ?_, ?_, ⟨_, by rw [last]⟩,
    ⟨fun above below u mem => ?_, fun above below c mem => ?_, fun above below => ?_⟩, ?_⟩
  · intro id lt other
    rw [node, if_neg (Nat.ne_of_lt lt), if_neg other]
  · rw [node, if_neg (Nat.ne_of_lt inside), if_pos rfl]
  · rw [last]
  · rw [only above below, last] at mem
    cases mem
  · rw [only above below, last] at mem
    cases mem
  · rw [only above below, Store.children, last]
    rfl
  · rw [size, Nat.add_sub_cancel_left]
    show ((Store.node _ w.store.nodes.size).successors ++ []).Perm _
    rw [last]
    exact .refl _

/-! ## Declarations -/

/-- The parts of a declaration that was just filled. -/
theorem mem_parts_described {name : Value} {kind : Kind} {parent : Option NodeId} {d : Description}
    {typeParameters signatures : List NodeId} {p : Part} :
    p ∈ (⟨name, kind, parent, describedBody d typeParameters signatures (.declaration {})⟩ : Node).parts ↔
      (∃ c ∈ typeParameters ++ signatures, p = .node c) ∨
        ∃ t ∈ d.type.toList ++ d.extendedTypes ++ d.implementedTypes, p = .type t := by
  simp only [describedBody, Node.parts, List.map_nil, List.nil_append, Option.toList_none, List.append_nil,
    List.mem_append, List.mem_map, List.map_append]
  constructor
  · rintro ((type | nodes) | types)
    · obtain ⟨t, mem, eq⟩ := type
      exact Or.inr ⟨t, Or.inl (Or.inl mem), eq.symm⟩
    · rcases nodes with ⟨c, mem, eq⟩ | ⟨c, mem, eq⟩
      · exact Or.inl ⟨c, Or.inl mem, eq.symm⟩
      · exact Or.inl ⟨c, Or.inr mem, eq.symm⟩
    · rcases types with ⟨t, mem, eq⟩ | ⟨t, mem, eq⟩
      · exact Or.inr ⟨t, Or.inl (Or.inr mem), eq.symm⟩
      · exact Or.inr ⟨t, Or.inr mem, eq.symm⟩
  · rintro (⟨c, mem | mem, eq⟩ | ⟨t, (mem | mem) | mem, eq⟩)
    · exact Or.inl (Or.inr (Or.inl ⟨c, mem, eq.symm⟩))
    · exact Or.inl (Or.inr (Or.inr ⟨c, mem, eq.symm⟩))
    · exact Or.inl (Or.inl ⟨t, mem, eq.symm⟩)
    · exact Or.inr (Or.inl ⟨t, mem, eq.symm⟩)
    · exact Or.inr (Or.inr ⟨t, mem, eq.symm⟩)

/-- Filling a declaration adds its parts, then hangs them into the declaration. -/
theorem adds_populate (w : Workspace) {id : NodeId} (inside : id < w.store.nodes.size) (d : Description) :
    ∃ w₁, Adds w (d.typeParameters.map (typeParameterNode id) ++ signaturesNodes (w.store.node id) id
        (w.store.nodes.size + d.typeParameters.length) d.signatures) w₁ ∧
      w.populate id d = { w₁ with store := w₁.store.modifyBody id (describedBody d
        (List.range' w.store.nodes.size d.typeParameters.length)
        (signatureIds (w.store.node id) id (w.store.nodes.size + d.typeParameters.length) d.signatures)) } := by
  obtain ⟨ids, first⟩ := adds_addParts w (d.typeParameters.map (typeParameterNode id))
  obtain ⟨ids', second⟩ := adds_addSignatures (w.addParts (d.typeParameters.map (typeParameterNode id))).2
    (by rw [first.size]; exact Nat.lt_add_right _ inside : id < _) d.signatures
  have both := first.trans second
  rw [List.length_map] at ids
  rw [first.size, List.length_map, first.same inside] at ids' both
  refine ⟨_, both, ?_⟩
  unfold populate
  rw [← ids, ← ids']

section Filled

variable {owner : Node} {name : Value} {kind : Kind} {parent : Option NodeId} {id first : NodeId} {d : Description}

/-- The nodes that a store holds where a declaration stands filled, with its parts from `first` on. -/
structure Filled (s : Store) (owner : Node) (id first : NodeId) (d : Description) : Prop where
  typeParameters : s.Holds first (d.typeParameters.map (typeParameterNode id))
  signatures : s.Holds (first + d.typeParameters.length)
    (signaturesNodes owner id (first + d.typeParameters.length) d.signatures)
  parts : ∀ {p}, p ∈ (s.node id).parts ↔
    (∃ c ∈ List.range' first d.typeParameters.length
      ++ signatureIds owner id (first + d.typeParameters.length) d.signatures, p = .node c) ∨
      ∃ t ∈ d.type.toList ++ d.extendedTypes ++ d.implementedTypes, p = .type t
  children : s.children id = []

/-- Every type of the description is met from the declaration. -/
theorem Filled.described (h : Filled s owner id first d) {t : Ty} (mem : t ∈ d.types) :
    ∃ id', s.Reaches id id' ∧ Part.type t ∈ (s.node id').parts := by
  have step : ∀ {c}, c ∈ List.range' first d.typeParameters.length
      ++ signatureIds owner id (first + d.typeParameters.length) d.signatures → s.Reaches id c :=
    fun mem => .single (Node.mem_successors.2 (Or.inl (h.parts.2 (Or.inl ⟨_, mem, rfl⟩))))
  rcases List.mem_append.1 mem with mem | mem
  · rcases List.mem_append.1 mem with mem | mem
    · obtain ⟨shape, here, mem⟩ := List.mem_flatMap.1 mem
      obtain ⟨c, inside, eq⟩ := h.typeParameters.exists_of_mem (List.mem_map_of_mem here)
      rw [List.length_map] at inside
      refine ⟨c, step (List.mem_append_left _ inside), ?_⟩
      rw [eq, parts_typeParameterNode]
      exact List.mem_map_of_mem mem
    · obtain ⟨c, here, id', way, part⟩ := reaches_signatures_type h.signatures mem
      exact ⟨id', (step (List.mem_append_right _ here)).trans way, part⟩
  · exact ⟨id, .refl id, h.parts.2 (Or.inr ⟨t, mem, rfl⟩)⟩

/-- The parts stand behind the declaration, and hold what is described. -/
theorem Filled.enclosed (h : Filled s owner id (id + 1) d) :
    s.Enclosed id (id + 1 + d.typeParameters.length
      + (signaturesNodes owner id (id + 1 + d.typeParameters.length) d.signatures).length) d.types := by
  have leaves := enclosed_leaves (parts_typeParameterNode id) _ h.typeParameters
  have behind := leaves.append (enclosed_signatures h.signatures) (Nat.le_add_right _ _)
  refine ⟨fun {id'} above below t mem => ?_, fun {id'} above below c mem => ?_, fun {id'} above below => ?_⟩
  · by_cases here : id' = id
    · subst here
      rcases h.parts.1 mem with ⟨c, _, eq⟩ | ⟨t', mem, eq⟩
      · cases eq
      · cases eq
        exact List.mem_append_right _ mem
    · exact List.mem_append_left _ (behind.type (Nat.lt_of_le_of_ne above fun eq => here eq.symm) below mem)
  · by_cases here : id' = id
    · subst here
      rcases h.parts.1 (Node.node_mem_parts.2 (Or.inr mem)) with ⟨c', mem, eq⟩ | ⟨t', _, eq⟩
      · cases eq
        rcases List.mem_append.1 mem with mem | mem
        · obtain ⟨low, high⟩ := List.mem_range'_1.1 mem
          exact ⟨low, Nat.lt_add_right _ high, limbOf_typeParameter h.typeParameters mem⟩
        · obtain ⟨⟨low, high⟩, limb⟩ := limbOf_signature h.signatures mem
          exact ⟨Nat.le_of_add_right_le low, high, limb⟩
      · cases eq
    · exact behind.limb (Nat.lt_of_le_of_ne above fun eq => here eq.symm) below mem
  · by_cases here : id' = id
    · subst here
      exact h.children
    · exact behind.children (Nat.lt_of_le_of_ne above fun eq => here eq.symm) below

/-- The parts are no declarations. -/
theorem Filled.bare (h : Filled s owner id first d) {c : NodeId} (above : first ≤ c)
    (below : c < first + d.typeParameters.length
      + (signaturesNodes owner id (first + d.typeParameters.length) d.signatures).length) (b : DeclarationBody) :
    (s.node c).body ≠ .declaration b := by
  by_cases inside : c < first + d.typeParameters.length
  · have mem : s.node c ∈ d.typeParameters.map (typeParameterNode id) :=
      h.typeParameters.mem_of_range (List.mem_range'_1.2 ⟨above, by rwa [List.length_map]⟩)
    obtain ⟨shape, _, eq⟩ := List.mem_map.1 mem
    rw [← eq]
    exact nofun
  · exact limb_signatures h.signatures (List.mem_range'_1.2 ⟨Nat.le_of_not_lt inside, below⟩) b

theorem once_filled (owner : Node) (name : Value) (kind : Kind) (parent : Option NodeId) (id : NodeId) (d : Description) :
    ((⟨name, kind, parent, describedBody d (List.range' (id + 1) d.typeParameters.length)
        (signatureIds owner id (id + 1 + d.typeParameters.length) d.signatures) (.declaration {})⟩ ::
      (d.typeParameters.map (typeParameterNode id)
        ++ signaturesNodes owner id (id + 1 + d.typeParameters.length) d.signatures)).flatMap Node.successors).Perm
      (List.range' (id + 1) (d.typeParameters.length
        + (signaturesNodes owner id (id + 1 + d.typeParameters.length) d.signatures).length)
        ++ d.types.flatMap Ty.inlines) := by
  have signatures := once_signatures owner id (id + 1 + d.typeParameters.length) d.signatures
  rw [List.flatMap_cons, List.flatMap_append, once_leaves (parts_typeParameterNode id), Node.successors_eq,
    ← List.range'_append_1]
  simp only [describedBody, Node.parts, Option.toList_none, List.append_nil, List.map_nil, List.nil_append,
    List.flatMap_append, Node.flatMap_enters_node, Node.flatMap_enters_type, Description.types]
  refine List.perm_iff_count.2 fun a => ?_
  have signatures := List.perm_iff_count.1 signatures a
  simp only [List.count_append] at signatures ⊢
  omega

end Filled

/-- What filling the last node of a workspace, a declaration, leads to. -/
structure Populated (w : Workspace) (id : NodeId) (d : Description) (w' : Workspace) : Prop where
  kept : Kept w w'
  size : w'.store.nodes.size = id + 1 + d.typeParameters.length
    + (signaturesNodes (w.store.node id) id (id + 1 + d.typeParameters.length) d.signatures).length
  same : ∀ {id'}, id' < id → w'.store.node id' = w.store.node id'
  declaration : ∃ b, w'.store.node id = { w.store.node id with body := .declaration b }
  filled : Filled w'.store (w.store.node id) id (id + 1) d
  once : (w'.store.heldFrom id (w'.store.nodes.size - id)).Perm
    (List.range' (id + 1) (w'.store.nodes.size - id - 1) ++ d.types.flatMap Ty.inlines)
  bound : w'.index.bound = w.index.bound
  consistent : w.index.Consistent → w'.index.Consistent
  nodeOf? : w.index.Consistent → ∀ symbol, w'.nodeOf? symbol = w.nodeOf? symbol

theorem populated_populate (w : Workspace) {id : NodeId} (last : w.store.nodes.size = id + 1)
    (bare : (w.store.node id).body = .declaration {}) (d : Description) :
    Populated w id d (w.populate id d) := by
  have inside : id < w.store.nodes.size := last ▸ Nat.lt_succ_self id
  obtain ⟨w₁, adds, eq⟩ := adds_populate w inside d
  have here : w₁.store.node id = w.store.node id := adds.same inside
  have inside₁ : id < w₁.store.nodes.size := adds.size ▸ Nat.lt_add_right _ inside
  have node := Store.node_modifyBody inside₁ (describedBody d
    (List.range' w.store.nodes.size d.typeParameters.length)
    (signatureIds (w.store.node id) id (w.store.nodes.size + d.typeParameters.length) d.signatures))
  rw [here, bare] at node
  have behind : ∀ {id'} {ns : List Node}, id < id' → w₁.store.Holds id' ns →
      (w₁.store.modifyBody id (describedBody d (List.range' w.store.nodes.size d.typeParameters.length)
        (signatureIds (w.store.node id) id (w.store.nodes.size + d.typeParameters.length)
          d.signatures))).Holds id' ns := by
    intro id' ns lt holds i inside
    rw [node, if_neg (Nat.ne_of_gt (Nat.lt_of_lt_of_le lt (Nat.le_add_right _ i)))]
    exact holds i inside
  obtain ⟨first, second⟩ := Store.holds_append.1 adds.holds
  rw [List.length_map] at second
  rw [last] at first second node behind eq
  rw [eq]
  have size : (w₁.store.modifyBody id (describedBody d (List.range' (id + 1) d.typeParameters.length)
      (signatureIds (w.store.node id) id (id + 1 + d.typeParameters.length) d.signatures))).nodes.size =
      id + 1 + d.typeParameters.length
        + (signaturesNodes (w.store.node id) id (id + 1 + d.typeParameters.length) d.signatures).length := by
    rw [Store.modifyBody, Store.size_modifyNode, adds.size, last, List.length_append, List.length_map, ← Nat.add_assoc]
  have run := Store.holds_cons.2 ⟨(node id).trans (if_pos rfl), Store.holds_append.2
    ⟨behind (Nat.lt_succ_self id) first, by
      rw [List.length_map]
      exact behind (Nat.lt_of_lt_of_le (Nat.lt_succ_self id) (Nat.le_add_right _ _)) second⟩⟩
  refine ⟨adds.kept.trans ⟨rfl, fun here => here, rfl, rfl, rfl, rfl, rfl, fun here => here⟩, size, ?_, ?_, ?_, ?_,
    adds.bound, adds.consistent, adds.nodeOf?⟩
  · intro id' lt
    rw [node, if_neg (Nat.ne_of_lt lt)]
    exact adds.same (Nat.lt_trans lt inside)
  · exact ⟨_, (node id).trans (if_pos rfl)⟩
  · refine ⟨behind (Nat.lt_succ_self id) first,
      behind (Nat.lt_of_lt_of_le (Nat.lt_succ_self id) (Nat.le_add_right _ _)) second, ?_, ?_⟩
    · intro p
      rw [node, if_pos rfl]
      exact mem_parts_described
    · rw [Store.children, node, if_pos rfl]
      rfl
  · have held := run.heldFrom_eq
    rw [List.length_cons, List.length_append, List.length_map] at held
    have count : ∀ i a b : Nat, i + 1 + a + b - i = a + b + 1 := fun i a b => by omega
    show (Store.heldFrom _ id ((w₁.store.modifyBody _ _).nodes.size - id)).Perm _
    rw [size, count, held]
    exact once_filled ..

/-- `w'` comes from `w` by declaring a symbol as described in a scope. -/
structure Declared (w : Workspace) (scope : NodeId) (symbol : SymbolId) (d : Description) (w' : Workspace) :
    Prop where
  kept : Kept w w'
  sprouts : w.store.Sprouts scope d.types w'.store
  declaration : ∃ b, w'.store.node w.store.nodes.size =
    ⟨(w.store.symbol symbol).name, (w.store.symbol symbol).kind, some scope, .declaration b⟩
  only : ∀ {id b}, w.store.nodes.size < id → (w'.store.node id).body ≠ .declaration b
  described : ∀ {t}, t ∈ d.types → ∃ id, w'.store.Reaches w.store.nodes.size id ∧
    Part.type t ∈ (w'.store.node id).parts
  bound : w'.index.bound = w.index.bound.insert symbol w.store.nodes.size
  consistent : w.index.Consistent → w'.index.Consistent
  nodeOf? : w.index.Consistent → ∀ symbol', w'.nodeOf? symbol' =
    if symbol' = symbol then some w.store.nodes.size else w.nodeOf? symbol'

theorem declare_fst (w : Workspace) (scope : NodeId) (symbol : SymbolId) (d : Description) :
    (w.declare scope symbol d).1 = w.store.nodes.size := by
  show (w.reportForeign _).store.nodes.size = _
  rw [(quiet_reportForeign w _).store]

theorem declare_snd (w : Workspace) (scope : NodeId) (symbol : SymbolId) (d : Description) :
    (w.declare scope symbol d).2 = ((w.reportForeign (w.store.symbol symbol)).create scope
      (w.store.symbol symbol).kind (w.store.symbol symbol).name (some symbol)).2.populate w.store.nodes.size d := by
  unfold declare
  show Workspace.populate (Workspace.create _ _ _ _ _).2 (w.reportForeign _).store.nodes.size d = _
  rw [(quiet_reportForeign w _).store]

/-! ## What declaring leaves alone -/

/-- At most the store has changed. -/
def Confined (w w' : Workspace) : Prop := w' = { w with store := w'.store }

theorem Confined.trans (h : Confined w w₁) (h' : Confined w₁ w₂) : Confined w w₂ :=
  Eq.trans h' (congrArg (fun v : Workspace => { v with store := w₂.store }) h)

theorem confined_addParts (w : Workspace) (ns : List Node) : Confined w (w.addParts ns).2 := by
  induction ns generalizing w with
  | nil => rfl
  | cons n ns ih =>
    have first : Confined w (w.addPart n).2 := rfl
    exact first.trans (ih _)

theorem confined_addSignature (w : Workspace) (parent : NodeId) (shape : SignatureShape) :
    Confined w (w.addSignature parent shape).2 := by
  have head : Confined w { w with store := (w.store.addNode ⟨(signatureHead (w.store.node parent)).2,
    (signatureHead (w.store.node parent)).1, some parent, .signature { type := shape.result }⟩).2 } := rfl
  have types := head.trans (confined_addParts _ (shape.typeParameters.map (typeParameterNode w.store.nodes.size)))
  have parts := types.trans (confined_addParts _ (shape.parameters.map (parameterNode w.store.nodes.size)))
  exact parts.trans rfl

theorem confined_addSignatures (w : Workspace) (parent : NodeId) (shapes : List SignatureShape) :
    Confined w (w.addSignatures parent shapes).2 := by
  induction shapes generalizing w with
  | nil => rfl
  | cons shape shapes ih => exact (confined_addSignature w parent shape).trans (ih _)

theorem confined_populate (w : Workspace) (id : NodeId) (d : Description) : Confined w (w.populate id d) :=
  (confined_addParts w _).trans ((confined_addSignatures _ id d.signatures).trans rfl)

theorem known_declare (w : Workspace) (scope : NodeId) (symbol : SymbolId) (d : Description) :
    (w.declare scope symbol d).2.known = w.known := by
  refine (congrArg Workspace.known (confined_populate _ _ d)).trans ?_
  show (w.reportForeign _).known = _
  unfold reportForeign
  split <;> rfl

/-- Declaring a symbol adds a declaration with the types of the description, and nothing else. -/
theorem declared_declare (w : Workspace) {scope : NodeId} (inside : scope < w.store.nodes.size)
    (symbol : SymbolId) (d : Description) : Declared w scope symbol d (w.declare scope symbol d).2 := by
  have quiet := quiet_reportForeign w (w.store.symbol symbol)
  have ne : scope ≠ w.store.nodes.size := Nat.ne_of_lt inside
  generalize made : ((w.reportForeign (w.store.symbol symbol)).create scope (w.store.symbol symbol).kind
    (w.store.symbol symbol).name (some symbol)).2 = w₁
  have node₁ := fun id => made ▸ node_create (w := w.reportForeign (w.store.symbol symbol))
    (w.store.symbol symbol).kind (w.store.symbol symbol).name (some symbol) (quiet.store.symm ▸ inside) id
  simp only [quiet.store] at node₁
  have size₁ : w₁.store.nodes.size = w.store.nodes.size + 1 := by rw [← made, size_create, quiet.store]
  have eq : (w.declare scope symbol d).2 = w₁.populate w.store.nodes.size d := made ▸ declare_snd w scope symbol d
  have head := (node₁ w.store.nodes.size).trans (if_pos rfl)
  have populated := populated_populate w₁ size₁ (by rw [head]) d
  have kept := (quiet.kept.trans (made ▸ kept_create ..)).trans populated.kept
  obtain ⟨b, filled⟩ := populated.declaration
  rw [head] at filled
  rw [eq]
  refine ⟨kept, ⟨kept.strays, ?_, ?_, ?_, ?_, ?_, ?_, populated.once⟩, ⟨b, filled⟩, ?_, populated.filled.described,
    ?_, ?_, ?_⟩
  · rw [populated.size]
    unfold NodeId at *
    omega
  · intro id lt other
    rw [populated.same lt, node₁, if_neg (Nat.ne_of_lt lt), if_neg other]
  · rw [populated.same inside, node₁, if_neg ne, if_pos rfl]
  · rw [filled]
  · exact ⟨b, by rw [filled]⟩
  · have := populated.filled.enclosed
    rwa [← populated.size] at this
  · intro id b above
    by_cases below : id < (w₁.populate w.store.nodes.size d).store.nodes.size
    · exact populated.filled.bare above (populated.size ▸ below) b
    · rw [Store.node_of_size_le (Nat.le_of_not_lt below)]
      exact nofun
  · rw [populated.bound, ← made, index_create, quiet.index, quiet.store]
    rfl
  · exact fun c => populated.consistent (made ▸ consistent_create (quiet.index.symm ▸ c))
  · intro c symbol'
    rw [populated.nodeOf? (made ▸ consistent_create (quiet.index.symm ▸ c)), ← made,
      nodeOf?_create (quiet.index.symm ▸ c), quiet.store, quiet.nodeOf?]
    simp only [Option.some.injEq]

end Workspace

end DocTree
