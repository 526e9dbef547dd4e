import DocTree.Proofs.Store.Grow

/-!
# The tree below a project

* `Lists s a b` : `b` is a child of `a`, or one of its signatures, parameters or type parameters;
  `Structural s root id` : `id` is the root, or it is listed below the root;
* `Foreign s root id` : nothing that is owned from `id` on is structural; `Foreign.spared` : this stays so
  while nothing changes but what is structural; `foreign_of_lists` : two lists tell;
* `Ordered s root` : a structural node is listed by one other at most, its children hang there, and its types wrap
  nothing structural; `Rooted s root` : all that is listed hangs where it is listed;
* `mem_walk_iff` : a walk from a structural node visits the structural nodes below it, and no others;
* `Keeps s t` : at most there are more nodes; `Ordered.keeps`, `Rooted.keeps` : the tree is the same;
* `structural_sprouts`, `structural_beside`, `Ordered.sprouts`, `Rooted.sprouts` : the tree with a new child, in it or
  beside it;
* `Loses s id t` : a node was taken away, wherever it hung; `Ordered.loses` : what is left is a tree;
* `Cut s parent id t` : a node was taken from its parent; `structural_cut`, `Rooted.cut` : the tree without it.
-/

namespace DocTree.Store

variable {s t : Store} {root : NodeId}

/-- A node lists its children, signatures, parameters and type parameters. -/
def Lists (s : Store) (a b : NodeId) : Prop := b ∈ s.children a ∨ b ∈ (s.node a).limbs

instance (s : Store) (a b : NodeId) : Decidable (s.Lists a b) := inferInstanceAs (Decidable (_ ∨ _))

/-- The root and the nodes listed below it. Inline types are not entered. -/
def Structural (s : Store) (root : NodeId) : NodeId → Prop := Relation.ReflTransGen s.Lists root

def Foreign (s : Store) (root id : NodeId) : Prop :=
  ∀ id', Relation.ReflTransGen (fun x y => y ∈ s.owned x) id id' → id' < s.nodes.size ∧ ¬s.Structural root id'

theorem Lists.lt {a b : NodeId} (h : s.Lists a b) : a < s.nodes.size := by
  by_contra outside
  rw [Lists, children, node_of_size_le (Nat.le_of_not_lt outside)] at h
  rcases h with h | h <;> cases h

theorem Lists.owned {a b : NodeId} (h : s.Lists a b) : b ∈ s.owned a :=
  h.elim Node.mem_owned_of_mem_children Node.mem_owned_of_mem_limbs

theorem Structural.lister {id : NodeId} (h : s.Structural root id) (ne : id ≠ root) :
    ∃ a, s.Structural root a ∧ s.Lists a id := by
  rcases h.cases_tail with rfl | lister
  · exact absurd rfl ne
  · exact lister

/-! ## What is foreign to the tree -/

/-- What is not structural is left alone, and nothing old becomes structural. -/
structure Spares (s : Store) (root : NodeId) (t : Store) : Prop where
  size : s.nodes.size ≤ t.nodes.size
  same : ∀ {id}, id < s.nodes.size → ¬s.Structural root id → t.node id = s.node id
  structural : ∀ {id}, t.Structural root id → s.Structural root id ∨ s.nodes.size ≤ id

theorem Foreign.spared {id : NodeId} (h : s.Foreign root id) (spares : s.Spares root t) : t.Foreign root id := by
  intro id' way
  have before : Relation.ReflTransGen (fun x y => y ∈ s.owned x) id id' := by
    induction way with
    | refl => exact .refl
    | @tail x y _ step ih =>
      obtain ⟨inside, foreign⟩ := h x ih
      have step : y ∈ (t.node x).owned := step
      rw [spares.same inside foreign] at step
      exact ih.tail step
  obtain ⟨inside, foreign⟩ := h id' before
  refine ⟨Nat.lt_of_lt_of_le inside spares.size, fun structural => ?_⟩
  rcases spares.structural structural with structural | outside
  · exact foreign structural
  · exact absurd inside (Nat.not_lt_of_le outside)

theorem foreign_of_lists {id : NodeId} (tree own : List NodeId) (start : root ∈ tree)
    (closed : ∀ a ∈ tree, ∀ b ∈ s.children a ++ (s.node a).limbs, b ∈ tree) (start' : id ∈ own)
    (apart : ∀ a ∈ own, a < s.nodes.size ∧ a ∉ tree ∧ ∀ b ∈ s.owned a, b ∈ own) : s.Foreign root id := by
  have inTree : ∀ {c}, s.Structural root c → c ∈ tree := by
    intro c way
    induction way with
    | refl => exact start
    | tail _ step ih => exact closed _ ih _ (List.mem_append.2 step)
  intro c way
  have owned : c ∈ own := by
    induction way with
    | refl => exact start'
    | tail _ step ih => exact (apart _ ih).2.2 _ step
  exact ⟨(apart c owned).1, fun structural => (apart c owned).2.1 (inTree structural)⟩

/-! ## Ordered and rooted trees -/

/-- The structural nodes form a tree: nothing lists the root, a child is a declaration that hangs where it is listed, a
limb is none and has one holder, at which it hangs if it hangs anywhere; types wrap nothing structural. -/
structure Ordered (s : Store) (root : NodeId) : Prop where
  inside : ∀ {id}, s.Structural root id → id < s.nodes.size
  top : ∀ {a}, s.Structural root a → ¬s.Lists a root
  child : ∀ {a b}, s.Structural root a → b ∈ s.children a →
    (s.node b).parent = some a ∧ ∃ d, (s.node b).body = .declaration d
  nodup : ∀ {a}, s.Structural root a → (s.children a).Nodup
  limb : ∀ {a c}, s.Structural root a → c ∈ (s.node a).limbs → ∀ b, (s.node c).body ≠ .declaration b
  hangs : ∀ {a c}, s.Structural root a → c ∈ (s.node a).limbs →
    (s.node c).parent = some a ∨ (s.node c).parent = none
  single : ∀ {a b c}, s.Structural root a → c ∈ (s.node a).limbs → s.Structural root b → c ∈ (s.node b).limbs → a = b
  foreign : ∀ {a u i}, s.Structural root a → Part.type u ∈ (s.node a).parts → i ∈ u.inlines → s.Foreign root i

/-- An ordered tree in which all that is listed hangs where it is listed. -/
structure Rooted (s : Store) (root : NodeId) : Prop extends Ordered s root where
  loose : (s.node root).parent = none
  parent : ∀ {a b}, s.Structural root a → s.Lists a b → (s.node b).parent = some a

/-- A project with nothing below it. -/
theorem rooted_bare (inside : root < s.nodes.size) {name : Value} {kind : Kind}
    (bare : s.node root = ⟨name, kind, none, .project []⟩) :
    s.Rooted root ∧ ∀ {id}, s.Structural root id ↔ id = root := by
  have nothing : ∀ {b}, ¬s.Lists root b := by
    intro b listed
    rw [Lists, children, bare] at listed
    rcases listed with listed | listed <;> cases listed
  have only : ∀ {id}, s.Structural root id ↔ id = root := by
    intro id
    refine ⟨fun structural => ?_, fun here => here ▸ .refl⟩
    rcases structural.cases_head with here | ⟨b, listed, _⟩
    · exact here.symm
    · exact absurd listed nothing
  have hollow : ∀ {a b}, s.Structural root a → ¬s.Lists a b := fun structural => only.1 structural ▸ nothing
  refine ⟨⟨⟨fun structural => only.1 structural ▸ inside, hollow, fun way held => ?_, fun structural => ?_,
    fun way held => ?_, fun way held => ?_, fun way held => ?_, fun structural held => ?_⟩, by rw [bare],
    fun way listed => absurd listed (hollow way)⟩, only⟩
  · exact absurd (Or.inl held) (hollow way)
  · rw [only.1 structural, children, bare]
    exact List.nodup_nil
  · exact absurd (Or.inr held) (hollow way)
  · exact absurd (Or.inr held) (hollow way)
  · exact absurd (Or.inr held) (hollow way)
  · rw [only.1 structural, bare] at held
    cases held

namespace Ordered

/-- Only one structural node lists a node. -/
theorem unique (h : s.Ordered root) {a b c : NodeId} (way : s.Structural root a) (listed : s.Lists a c)
    (way' : s.Structural root b) (listed' : s.Lists b c) : a = b := by
  rcases listed with child | limb <;> rcases listed' with child' | limb'
  · exact Option.some.inj ((h.child way child).1.symm.trans (h.child way' child').1)
  · obtain ⟨d, eq⟩ := (h.child way child).2
    exact absurd eq (h.limb way' limb' d)
  · obtain ⟨d, eq⟩ := (h.child way' child').2
    exact absurd eq (h.limb way limb d)
  · exact h.single way limb way' limb'

theorem not_lists_self (h : s.Ordered root) {a : NodeId} (structural : s.Structural root a) : ¬s.Lists a a := by
  intro listed
  have avoided : ∀ {b}, s.Structural root b → b ≠ a := by
    intro b way
    induction way with
    | refl =>
      rintro rfl
      exact h.top structural listed
    | tail before step ih =>
      rintro rfl
      exact ih (h.unique before step structural listed)
  exact avoided structural rfl

theorem owned_cases (h : s.Ordered root) {a b : NodeId} (structural : s.Structural root a) (mem : b ∈ s.owned a) :
    s.Lists a b ∨ s.Foreign root b := by
  rcases Node.mem_owned_cases mem with child | limb | ⟨u, held, inside⟩
  · exact Or.inl (Or.inl child)
  · exact Or.inl (Or.inr limb)
  · exact Or.inr (h.foreign structural held inside)

theorem below_or_foreign (h : s.Ordered root) {a b : NodeId} (structural : s.Structural root a)
    (way : Relation.ReflTransGen (fun x y => y ∈ s.owned x) a b) : s.Structural a b ∨ s.Foreign root b := by
  induction way with
  | refl => exact Or.inl .refl
  | tail _ step ih =>
    rcases ih with below | foreign
    · exact (h.owned_cases (structural.trans below) step).imp_left below.tail
    · exact Or.inr fun id way => foreign id (.head step way)

theorem mem_walk_iff_owned (h : s.Ordered root) {a b : NodeId} (structural : s.Structural root a) :
    b ∈ s.walk a ↔ Relation.ReflTransGen (fun x y => y ∈ s.owned x) a b := by
  refine ⟨owned_of_mem_walkDepth, fun way => mem_walk_of_owned way ?_⟩
  rcases h.below_or_foreign structural way with below | foreign
  · exact h.inside (structural.trans below)
  · exact (foreign b .refl).1

/-- A walk from a structural node visits the structural nodes below it, and no others. -/
theorem mem_walk_iff (h : s.Ordered root) {a b : NodeId} (structural : s.Structural root a)
    (structural' : s.Structural root b) : b ∈ s.walk a ↔ s.Structural a b := by
  constructor
  · intro visited
    rcases h.below_or_foreign structural (owned_of_mem_walkDepth visited) with below | foreign
    · exact below
    · exact absurd structural' (foreign b .refl).2
  · intro below
    exact mem_walk_of_owned (Relation.ReflTransGen.mono (fun _ _ => Lists.owned) _ _ below) (h.inside structural')

end Ordered

/-! ## More nodes beside the tree -/

/-- At most there are more nodes. -/
structure Keeps (s t : Store) : Prop where
  size : s.nodes.size ≤ t.nodes.size
  same : ∀ {id}, id < s.nodes.size → t.node id = s.node id

theorem Keeps.refl (s : Store) : s.Keeps s := ⟨Nat.le_refl _, fun _ => rfl⟩

/-- New nodes that nothing structural lists are not structural. -/
theorem structural_keeps (h : s.Ordered root) (keeps : s.Keeps t) {id : NodeId} :
    t.Structural root id ↔ s.Structural root id := by
  have lists : ∀ {a b}, s.Structural root a → (t.Lists a b ↔ s.Lists a b) := by
    intro a b structural
    unfold Lists children
    rw [keeps.same (h.inside structural)]
  constructor
  · intro way
    induction way with
    | refl => exact .refl
    | tail _ step ih => exact ih.tail ((lists ih).1 step)
  · intro way
    induction way with
    | refl => exact .refl
    | tail before step ih => exact ih.tail ((lists before).2 step)

theorem spares_keeps (h : s.Ordered root) (keeps : s.Keeps t) : s.Spares root t :=
  ⟨keeps.size, fun inside _ => keeps.same inside, fun way => Or.inl ((structural_keeps h keeps).1 way)⟩

section Keeps

variable (h : s.Ordered root) (kept : s.Keeps t)
include h kept

theorem node_keeps {id : NodeId} (way : t.Structural root id) : t.node id = s.node id :=
  kept.same (h.inside ((structural_keeps h kept).1 way))

theorem lists_keeps {a b : NodeId} (way : t.Structural root a) : t.Lists a b ↔ s.Lists a b := by
  rw [Lists, children, node_keeps h kept way]
  exact Iff.rfl

theorem Ordered.keeps : t.Ordered root := by
  have old : ∀ {id}, t.Structural root id → s.Structural root id := (structural_keeps h kept).1
  have same : ∀ {id}, t.Structural root id → t.node id = s.node id := node_keeps h kept
  have children : ∀ {id}, t.Structural root id → t.children id = s.children id := fun way => by
    rw [children, same way]
    rfl
  refine ⟨fun way => Nat.lt_of_lt_of_le (h.inside (old way)) kept.size,
    fun way listed => h.top (old way) ((lists_keeps h kept way).1 listed), fun way held => ?_, fun way => ?_,
    fun way held => ?_, fun way held => ?_, fun way held way' held' => ?_, fun way held inside => ?_⟩
  · rw [same (way.tail (Or.inl held))]
    exact h.child (old way) (children way ▸ held)
  · rw [children way]
    exact h.nodup (old way)
  · rw [same (way.tail (Or.inr held))]
    exact h.limb (old way) (same way ▸ held)
  · rw [same (way.tail (Or.inr held))]
    exact h.hangs (old way) (same way ▸ held)
  · exact h.single (old way) (same way ▸ held) (old way') (same way' ▸ held')
  · exact (h.foreign (old way) (same way ▸ held) inside).spared (spares_keeps h kept)

end Keeps

theorem Rooted.keeps (h : s.Rooted root) (keeps : s.Keeps t) : t.Rooted root where
  toOrdered := h.toOrdered.keeps keeps
  loose := (node_keeps h.toOrdered keeps .refl).symm ▸ h.loose
  parent := fun way listed => by
    rw [node_keeps h.toOrdered keeps (way.tail listed)]
    exact h.parent ((structural_keeps h.toOrdered keeps).1 way) ((lists_keeps h.toOrdered keeps way).1 listed)

/-! ## A new child -/

section Sprouts

variable {scope : NodeId} {types : List Ty}

/-- What a node lists was listed before, or came with the child. -/
theorem Sprouts.lists_or_new (h : s.Sprouts scope types t) (container : s.isContainer scope = true) {a b : NodeId}
    (listed : t.Lists a b) : s.Lists a b ∨ (a = scope ∧ b = s.nodes.size) ∨
      (s.nodes.size ≤ a ∧ a < b ∧ b < t.nodes.size ∧ t.LimbOf a b) := by
  rcases listed with child | limb
  · rw [h.children container] at child
    split at child
    · rename_i here
      rcases List.mem_append.1 child with child | last
      · exact Or.inl (here ▸ Or.inl child)
      · exact Or.inr (Or.inl ⟨here, List.mem_singleton.1 last⟩)
    · exact Or.inl (Or.inl child)
  · rcases h.limb_or_new limb with limb | new
    · exact Or.inl (Or.inr limb)
    · exact Or.inr (Or.inr new)

theorem Sprouts.lists_mono (h : s.Sprouts scope types t) (container : s.isContainer scope = true) {a b : NodeId}
    (listed : s.Lists a b) : t.Lists a b :=
  Node.node_mem_parts.1 (h.grows container a _ (Node.node_mem_parts.2 listed))

/-- All that came with the child is listed below it. -/
theorem Sprouts.structural_new (h : s.Sprouts scope types t)
    (old : ∀ u ∈ types, ∀ i ∈ u.inlines, i < s.nodes.size) {c : NodeId} (above : s.nodes.size ≤ c)
    (below : c < t.nodes.size) : t.Structural s.nodes.size c := by
  induction c using Nat.strong_induction_on with
  | _ c ih =>
    by_cases first : c = s.nodes.size
    · exact first ▸ .refl
    have held : c ∈ t.heldFrom s.nodes.size (t.nodes.size - s.nodes.size) := by
      refine h.once.mem_iff.2 (List.mem_append_left _ (List.mem_range'_1.2 ?_))
      unfold NodeId at *
      omega
    obtain ⟨a, mem, next⟩ := List.mem_flatMap.1 held
    obtain ⟨low, high⟩ := List.mem_range'_1.1 mem
    have high : a < t.nodes.size := by
      unfold NodeId at *
      omega
    rcases Node.mem_successors.1 next with part | ⟨u, part, inside⟩
    · rcases Node.node_mem_parts.1 part with child | limb
      · rw [← Store.children, h.enclosed.children low high] at child
        cases child
      · exact (ih a (h.enclosed.limb low high limb).1 low high).tail (Or.inr limb)
    · exact absurd (old u (h.enclosed.type low high part) c inside) (Nat.not_lt_of_le above)

/-- What is structural with the child was so before, or came with it. -/
theorem structural_or_new (grown : s.Sprouts scope types t) (container : s.isContainer scope = true) {id : NodeId}
    (way : t.Structural root id) : s.Structural root id ∨ (s.nodes.size ≤ id ∧ id < t.nodes.size) := by
  induction way with
  | refl => exact Or.inl .refl
  | @tail a b _ step ih =>
    rcases grown.lists_or_new container step with listed | ⟨_, rfl⟩ | ⟨above, behind, below, _⟩
    · rcases ih with old | new
      · exact Or.inl (old.tail listed)
      · exact absurd listed.lt (Nat.not_lt_of_le new.1)
    · exact Or.inr ⟨Nat.le_refl _, grown.size⟩
    · exact Or.inr ⟨Nat.le_of_lt (Nat.lt_of_le_of_lt above behind), below⟩

/-- The tree gains all that came with the child. -/
theorem structural_sprouts (grown : s.Sprouts scope types t)
    (structural : s.Structural root scope) (container : s.isContainer scope = true)
    (foreign : ∀ u ∈ types, ∀ i ∈ u.inlines, s.Foreign root i) {id : NodeId} :
    t.Structural root id ↔ s.Structural root id ∨ (s.nodes.size ≤ id ∧ id < t.nodes.size) := by
  refine ⟨structural_or_new grown container, ?_⟩
  have kept : ∀ {id}, s.Structural root id → t.Structural root id :=
    Relation.ReflTransGen.mono (fun _ _ => grown.lists_mono container) _ _
  rintro (way | ⟨above, below⟩)
  · exact kept way
  · have child : t.Lists scope s.nodes.size := by
      refine Or.inl ?_
      rw [grown.children container, if_pos rfl]
      exact List.mem_append_right _ (List.mem_singleton_self _)
    exact ((kept structural).tail child).trans
      (grown.structural_new (fun u mem i inside => (foreign u mem i inside i .refl).1) above below)

theorem structural_beside (h : s.Ordered root) (grown : s.Sprouts scope types t)
    (container : s.isContainer scope = true) (beside : ¬s.Structural root scope) {id : NodeId}
    (way : t.Structural root id) : s.Structural root id := by
  induction way with
  | refl => exact .refl
  | tail _ step ih =>
    rcases grown.lists_or_new container step with listed | ⟨rfl, _⟩ | ⟨above, _⟩
    · exact ih.tail listed
    · exact absurd ih beside
    · exact absurd (h.inside ih) (Nat.not_lt_of_le above)

theorem spares_sprouts (grown : s.Sprouts scope types t)
    (structural : s.Structural root scope) (container : s.isContainer scope = true) : s.Spares root t where
  size := Nat.le_of_lt grown.size
  same := fun inside other => grown.same inside fun here => other (here ▸ structural)
  structural := fun way => (structural_or_new grown container way).imp_right And.left

/-- What is foreign stays so, wherever the child was put. -/
theorem Foreign.sprouts {id : NodeId} (foreign : s.Foreign root id) (h : s.Ordered root)
    (grown : s.Sprouts scope types t) (container : s.isContainer scope = true)
    (own : ∀ u ∈ types, ∀ i ∈ u.inlines, s.Foreign root i) : t.Foreign root id := by
  by_cases structural : s.Structural root scope
  · exact foreign.spared (spares_sprouts grown structural container)
  have step : ∀ {x y}, s.Foreign root x ∨ (s.nodes.size ≤ x ∧ x < t.nodes.size) → y ∈ t.owned x →
      s.Foreign root y ∨ (s.nodes.size ≤ y ∧ y < t.nodes.size) := by
    rintro x y (old | ⟨above, below⟩) mem
    · have next {z : NodeId} (held : z ∈ s.owned x) : s.Foreign root z := fun id' way => old id' (.head held way)
      by_cases here : x = scope
      · subst here
        rw [owned, grown.widened] at mem
        rcases Node.mem_owned_giveChildren mem with held | new
        · exact Or.inl (next held)
        · rw [List.mem_singleton.1 new]
          exact Or.inr ⟨Nat.le_refl _, grown.size⟩
      · rw [owned, grown.same (old x .refl).1 here] at mem
        exact Or.inl (next mem)
    · rcases Node.mem_owned_cases mem with child | limb | ⟨u, held, inside⟩
      · rw [← Store.children, grown.enclosed.children above below] at child
        cases child
      · obtain ⟨behind, below', _⟩ := grown.enclosed.limb above below limb
        exact Or.inr ⟨Nat.le_of_lt (Nat.lt_of_le_of_lt above behind), below'⟩
      · exact Or.inl (own u (grown.enclosed.type above below held) y inside)
  intro id' way
  have reached : s.Foreign root id' ∨ (s.nodes.size ≤ id' ∧ id' < t.nodes.size) := by
    induction way with
    | refl => exact Or.inl foreign
    | tail _ last ih => exact step ih last
  have before : t.Structural root id' → s.Structural root id' := structural_beside h grown container structural
  rcases reached with old | new
  · exact ⟨Nat.lt_trans (old id' .refl).1 grown.size, fun way => (old id' .refl).2 (before way)⟩
  · exact ⟨new.2, fun way => absurd (h.inside (before way)) (Nat.not_lt_of_le new.1)⟩

theorem structural_old (grown : s.Sprouts scope types t) (container : s.isContainer scope = true) {id : NodeId}
    (way : t.Structural root id) (inside : id < s.nodes.size) : s.Structural root id :=
  (structural_or_new grown container way).resolve_right fun new => absurd inside (Nat.not_lt_of_le new.1)

namespace Ordered

variable (h : s.Ordered root) (grown : s.Sprouts scope types t) (container : s.isContainer scope = true)
include h grown container

theorem listed_old {a b : NodeId} (way : t.Structural root a) (listed : s.Lists a b) :
    s.Structural root a ∧ b < s.nodes.size := by
  have before : s.Structural root a := structural_old grown container way listed.lt
  exact ⟨before, h.inside (before.tail listed)⟩

theorem limb_sprouts {a c : NodeId} (way : t.Structural root a) (held : c ∈ (t.node a).limbs) :
    (s.Structural root a ∧ c ∈ (s.node a).limbs ∧ c < s.nodes.size) ∨ (s.nodes.size < c ∧ t.LimbOf a c) := by
  rcases grown.limb_or_new held with held | ⟨above, behind, _, limb⟩
  · obtain ⟨before, inside⟩ := h.listed_old grown container way (Or.inr held)
    exact Or.inl ⟨before, held, inside⟩
  · exact Or.inr ⟨Nat.lt_of_le_of_lt above behind, limb⟩

theorem child_sprouts {a b : NodeId} (way : t.Structural root a) (held : b ∈ t.children a) :
    (t.node b).parent = some a ∧ ∃ d, (t.node b).body = .declaration d := by
  have before (child : b ∈ s.children a) : (t.node b).parent = some a ∧ ∃ d, (t.node b).body = .declaration d := by
    obtain ⟨way, inside⟩ := h.listed_old grown container way (Or.inl child)
    obtain ⟨above, declaration⟩ := h.child way child
    exact ⟨(grown.parent_same inside).trans above, grown.declaration_mono declaration⟩
  rw [grown.children container] at held
  split at held
  · rename_i here
    rcases List.mem_append.1 held with child | last
    · exact before (here ▸ child)
    · rw [List.mem_singleton.1 last, here]
      exact ⟨grown.parent, grown.declaration⟩
  · exact before held

theorem nodup_sprouts {a : NodeId} (way : t.Structural root a) : (t.children a).Nodup := by
  rw [grown.children container]
  split
  · rename_i here
    have structural : s.Structural root scope := structural_old grown container (here ▸ way) (lt_of_isContainer container)
    refine List.nodup_append.2 ⟨h.nodup structural, List.nodup_singleton _, fun b mem c mem' same => ?_⟩
    have inside : b < s.nodes.size := h.inside (structural.tail (Or.inl mem))
    rw [same, List.mem_singleton.1 mem'] at inside
    exact absurd inside (Nat.lt_irrefl _)
  · rcases structural_or_new grown container way with way | new
    · exact h.nodup way
    · rw [children_of_size_le new.1]
      exact List.nodup_nil

/-- A tree with a new child, in it or beside it, is ordered. -/
theorem sprouts (own : ∀ u ∈ types, ∀ i ∈ u.inlines, s.Foreign root i) : t.Ordered root where
  inside := fun way => by
    rcases structural_or_new grown container way with way | new
    · exact Nat.lt_trans (h.inside way) grown.size
    · exact new.2
  top := fun {a} way listed => by
    rcases grown.lists_or_new container listed with listed | ⟨_, eq⟩ | ⟨above, behind, _⟩
    · exact h.top (h.listed_old grown container way listed).1 listed
    · exact absurd (eq ▸ h.inside .refl) (Nat.lt_irrefl _)
    · exact absurd (h.inside .refl) (Nat.not_lt_of_le (Nat.le_of_lt (Nat.lt_of_le_of_lt above behind)))
  child := h.child_sprouts grown container
  nodup := h.nodup_sprouts grown container
  limb := fun {a c} way held b => by
    rcases h.limb_sprouts grown container way held with ⟨way, held, inside⟩ | ⟨_, new⟩
    · intro eq
      by_cases here : c = scope
      · subst here
        rw [grown.widened, Node.giveChildren_body] at eq
        obtain ⟨b', eq⟩ := Node.mapChildren_eq_declaration.1 ⟨b, eq⟩
        exact h.limb way held b' eq
      · rw [grown.same inside here] at eq
        exact h.limb way held b eq
    · exact new.body b
  hangs := fun way held => by
    rcases h.limb_sprouts grown container way held with ⟨way, held, inside⟩ | ⟨_, new⟩
    · rw [grown.parent_same inside]
      exact h.hangs way held
    · exact Or.inl new.parent
  single := fun way held way' held' => by
    rcases h.limb_sprouts grown container way held with ⟨way, mem, inside⟩ | ⟨above, new⟩ <;>
      rcases h.limb_sprouts grown container way' held' with ⟨way', mem', inside'⟩ | ⟨above', new'⟩
    · exact h.single way mem way' mem'
    · exact absurd inside (Nat.not_lt_of_lt above')
    · exact absurd inside' (Nat.not_lt_of_lt above)
    · exact Option.some.inj (new.parent.symm.trans new'.parent)
  foreign := fun {a u i} way held inside => by
    refine Foreign.sprouts ?_ h grown container own
    rcases grown.type_or_new container held with held | ⟨_, mem⟩
    · exact h.foreign (structural_old grown container way (lt_of_mem_parts held)) held inside
    · exact own u mem i inside

end Ordered

/-- A tree with a new child is rooted. -/
theorem Rooted.sprouts (h : s.Rooted root) (grown : s.Sprouts scope types t) (container : s.isContainer scope = true)
    (own : ∀ u ∈ types, ∀ i ∈ u.inlines, s.Foreign root i) : t.Rooted root where
  toOrdered := h.toOrdered.sprouts grown container own
  loose := (grown.parent_same (h.inside .refl)).trans h.loose
  parent := fun {a b} way listed => by
    rcases grown.lists_or_new container listed with listed | ⟨rfl, rfl⟩ | ⟨_, _, _, limb⟩
    · obtain ⟨before, inside⟩ := h.toOrdered.listed_old grown container way listed
      exact (grown.parent_same inside).trans (h.parent before listed)
    · exact grown.parent
    · exact limb.parent

end Sprouts

/-! ## A node taken away -/

/-- A node was taken from the children of its parent, if it hung anywhere, and hangs nowhere any more. -/
structure Loses (s : Store) (id : NodeId) (t : Store) : Prop where
  size : t.nodes.size = s.nodes.size
  node : ∀ id', t.node id' =
    { s.node id' with
      parent := if id' = id then none else (s.node id').parent
      body := if (s.node id).parent = some id' then (s.node id').body.mapChildren (·.erase id) else (s.node id').body }

section Loses

variable {id : NodeId}

theorem Loses.parent (h : s.Loses id t) (id' : NodeId) :
    (t.node id').parent = if id' = id then none else (s.node id').parent := by
  rw [h.node]

theorem Loses.body (h : s.Loses id t) (id' : NodeId) : (t.node id').body =
    if (s.node id).parent = some id' then (s.node id').body.mapChildren (·.erase id) else (s.node id').body := by
  rw [h.node]

theorem Loses.children (h : s.Loses id t) (id' : NodeId) :
    t.children id' = if (s.node id).parent = some id' then (s.children id').erase id else s.children id' := by
  rw [Store.children, h.body]
  split
  · unfold Store.children
    cases (s.node id').body <;> rfl
  · rfl

theorem Loses.mem_children (h : s.Loses id t) {a b : NodeId} (held : b ∈ t.children a) : b ∈ s.children a := by
  rw [h.children] at held
  split at held
  · exact List.mem_of_mem_erase held
  · exact held

theorem Loses.body_cases (h : s.Loses id t) (id' : NodeId) :
    (t.node id').body = (s.node id').body ∨ (t.node id').body = (s.node id').body.mapChildren (·.erase id) := by
  rw [h.body]
  split
  · exact Or.inr rfl
  · exact Or.inl rfl

theorem Loses.limbs (h : s.Loses id t) (id' : NodeId) : (t.node id').limbs = (s.node id').limbs := by
  unfold Node.limbs
  rcases h.body_cases id' with same | lost
  · rw [same]
  · rw [lost]
    exact Node.limbs_mapChildren (s.node id') _

theorem Loses.owned (h : s.Loses id t) (id' : NodeId) : t.owned id' ⊆ s.owned id' := by
  unfold Store.owned Node.owned
  rcases h.body_cases id' with same | lost
  · rw [same]
    exact fun _ mem => mem
  · rw [lost]
    exact Node.owned_mapChildren_subset (s.node id') fun {_} => List.erase_subset

theorem Loses.mem_owned (h : s.Loses id t) {a b : NodeId} (mem : b ∈ s.owned a) (ne : b ≠ id) : b ∈ t.owned a := by
  unfold Store.owned Node.owned
  rcases h.body_cases a with same | lost
  · rw [same]
    exact mem
  · rw [lost]
    exact Node.mem_owned_mapChildren (n := s.node a) (fun held => (List.mem_erase_of_ne ne).2 held) mem

theorem Loses.parts (h : s.Loses id t) {id' : NodeId} {p : Part} (mem : p ∈ (t.node id').parts) :
    p ∈ (s.node id').parts := by
  unfold Node.parts at mem
  rcases h.body_cases id' with same | lost
  · rw [same] at mem
    exact mem
  · rw [lost] at mem
    exact Node.mem_parts_mapChildren (n := s.node id') List.mem_of_mem_erase mem

theorem Loses.declaration_iff (h : s.Loses id t) (id' : NodeId) :
    (∃ b, (t.node id').body = .declaration b) ↔ ∃ b, (s.node id').body = .declaration b := by
  rcases h.body_cases id' with same | lost
  · rw [same]
  · rw [lost]
    exact Node.mapChildren_eq_declaration

theorem Loses.lists (h : s.Loses id t) {a b : NodeId} (listed : t.Lists a b) : s.Lists a b := by
  rw [Lists, h.limbs] at listed
  exact listed.imp_left h.mem_children

theorem Loses.structural (h : s.Loses id t) {id' : NodeId} (way : t.Structural root id') : s.Structural root id' :=
  Relation.ReflTransGen.mono (fun _ _ => h.lists) _ _ way

theorem Loses.lists_of (h : s.Loses id t) {a b : NodeId} (listed : s.Lists a b) (other : b ∈ s.children a → b ≠ id) :
    t.Lists a b := by
  rcases listed with child | limb
  · refine Or.inl ?_
    rw [h.children]
    split
    · exact (List.mem_erase_of_ne (other child)).2 child
    · exact child
  · exact Or.inr ((h.limbs a).symm ▸ limb)

/-- What is structural, and not below the lost node, stays so. -/
theorem Loses.structural_of (h : s.Loses id t) {a : NodeId} (way : s.Structural root a) (apart : ¬s.Structural id a) :
    t.Structural root a := by
  induction way with
  | refl => exact .refl
  | tail _ step ih =>
    refine (ih fun below => apart (below.tail step)).tail (h.lists_of step fun _ here => ?_)
    exact apart (here ▸ .refl)

theorem Foreign.loses {i : NodeId} (foreign : s.Foreign root i) (h : s.Loses id t) : t.Foreign root i := by
  intro id' way
  obtain ⟨inside, apart⟩ := foreign id' (Relation.ReflTransGen.mono (fun x _ mem => h.owned x mem) _ _ way)
  exact ⟨h.size ▸ inside, fun structural => apart (h.structural structural)⟩

/-- A tree from which any node was taken is ordered. -/
theorem Ordered.loses (h : s.Ordered root) (loses : s.Loses id t) : t.Ordered root := by
  have old : ∀ {id'}, t.Structural root id' → s.Structural root id' := loses.structural
  have limbs : ∀ {a c}, c ∈ (t.node a).limbs → c ∈ (s.node a).limbs := fun mem => loses.limbs _ ▸ mem
  refine ⟨fun way => loses.size ▸ h.inside (old way), fun way listed => h.top (old way) (loses.lists listed),
    fun {a b} way held => ?_, fun {a} way => ?_, fun {a c} way held b eq => ?_, fun {a c} way held => ?_,
    fun way held way' held' => h.single (old way) (limbs held) (old way') (limbs held'), fun way held inside => ?_⟩
  · obtain ⟨above, declaration⟩ := h.child (old way) (loses.mem_children held)
    refine ⟨?_, (loses.declaration_iff b).2 declaration⟩
    have other : b ≠ id := by
      rintro rfl
      rw [loses.children, if_pos above] at held
      exact (h.nodup (old way)).not_mem_erase held
    rw [loses.parent, if_neg other]
    exact above
  · rw [loses.children]
    split
    · exact (h.nodup (old way)).erase id
    · exact h.nodup (old way)
  · obtain ⟨b', eq'⟩ := (loses.declaration_iff c).1 ⟨b, eq⟩
    exact h.limb (old way) (limbs held) b' eq'
  · rw [loses.parent]
    split
    · exact Or.inr rfl
    · exact h.hangs (old way) (limbs held)
  · exact (h.foreign (old way) (loses.parts held) inside).loses loses

theorem Ordered.parent_cases (h : s.Ordered root) (way : s.Structural root id) (ne : id ≠ root) :
    (∃ a, s.Structural root a ∧ (s.node id).parent = some a) ∨ (s.node id).parent = none := by
  obtain ⟨a, way, listed⟩ := way.lister ne
  rcases listed with child | limb
  · exact Or.inl ⟨a, way, (h.child way child).1⟩
  · exact (h.hangs way limb).imp_left fun above => ⟨a, way, above⟩

theorem Ordered.node_loses_outside (h : s.Ordered root) (loses : s.Loses id t) (way : s.Structural root id)
    (ne : id ≠ root) {a : NodeId} (outside : ¬s.Structural root a) : t.node a = s.node a := by
  have other : (s.node id).parent ≠ some a := by
    intro above
    rcases h.parent_cases way ne with ⟨b, way', above'⟩ | loose
    · rw [above] at above'
      exact outside (Option.some.inj above' ▸ way')
    · rw [above] at loose
      cases loose
  have apart : a ≠ id := by
    rintro rfl
    exact outside way
  rw [loses.node, if_neg other, if_neg apart]

/-- Another structural node keeps all but the lost child. -/
theorem Ordered.node_loses (h : s.Ordered root) (loses : s.Loses id t) {a : NodeId} (way : s.Structural root a)
    (ne : a ≠ id) :
    t.node a = { s.node a with body := (s.node a).body.mapChildren (·.filter fun c => c ≠ id) } := by
  have body : (t.node a).body = (s.node a).body.mapChildren (·.filter fun c => c ≠ id) := by
    rw [loses.body]
    split
    · refine Body.mapChildren_congr ?_
      refine ((h.nodup way).erase_eq_filter id).trans (List.filter_congr fun c _ => ?_)
      rw [Bool.eq_iff_iff, bne_iff_ne, decide_eq_true_iff]
    · rename_i other
      have apart : ∀ c ∈ s.children a, c ≠ id := by
        rintro c held rfl
        exact other (h.child way held).1
      have all : (s.node a).body.mapChildren (·.filter fun c => c ≠ id) = (s.node a).body.mapChildren fun ids => ids :=
        Body.mapChildren_congr (List.filter_eq_self.2 fun c held => decide_eq_true (apart c held))
      rw [all, Body.mapChildren_id]
  rw [← body, loses.node, if_neg ne]

theorem Ordered.structural_loses_limb (h : s.Ordered root) (loses : s.Loses id t)
    (limb : ∀ b, (s.node id).body ≠ .declaration b) {a : NodeId} (way : s.Structural root a) :
    t.Structural root a := by
  induction way with
  | refl => exact .refl
  | tail way step ih =>
    refine ih.tail (loses.lists_of step ?_)
    rintro child rfl
    obtain ⟨d, eq⟩ := (h.child way child).2
    exact limb d eq

end Loses

/-! ## A child taken away -/

/-- A node was taken from its parent. -/
structure Cut (s : Store) (parent id : NodeId) (t : Store) : Prop where
  size : t.nodes.size = s.nodes.size
  node : ∀ id', t.node id' =
    if id' = id then { s.node id with parent := none }
    else if id' = parent then { s.node parent with body := (s.node parent).body.mapChildren (·.erase id) }
    else s.node id'
  ne : parent ≠ id

namespace Cut

variable {parent id : NodeId}

theorem children (h : s.Cut parent id t) (id' : NodeId) :
    t.children id' = if id' = parent then (s.children parent).erase id else s.children id' := by
  rw [Store.children, h.node]
  by_cases here : id' = id
  · rw [if_pos here, here, if_neg h.ne.symm]
    rfl
  · rw [if_neg here]
    split
    · unfold Store.children
      cases (s.node parent).body <;> rfl
    · rfl

theorem limbs (h : s.Cut parent id t) (id' : NodeId) : (t.node id').limbs = (s.node id').limbs := by
  rw [h.node]
  split
  · rename_i here
    rw [here]
    rfl
  · split
    · rename_i above
      rw [above]
      exact Node.limbs_mapChildren ..
    · rfl

theorem parts (h : s.Cut parent id t) {id' : NodeId} {p : Part} (mem : p ∈ (t.node id').parts) :
    p ∈ (s.node id').parts := by
  rw [h.node] at mem
  split at mem
  · rename_i here
    exact here ▸ mem
  · split at mem
    · rename_i above
      exact above ▸ Node.mem_parts_mapChildren List.mem_of_mem_erase mem
    · exact mem

theorem name_kind (h : s.Cut parent id t) (id' : NodeId) :
    (t.node id').name = (s.node id').name ∧ (t.node id').kind = (s.node id').kind := by
  rw [h.node]
  split
  · rename_i here
    exact here ▸ ⟨rfl, rfl⟩
  · split
    · rename_i above
      exact above ▸ ⟨rfl, rfl⟩
    · exact ⟨rfl, rfl⟩

theorem parent_same (h : s.Cut parent id t) {id' : NodeId} (other : id' ≠ id) :
    (t.node id').parent = (s.node id').parent := by
  rw [h.node, if_neg other]
  split
  · rename_i above
    rw [above]
  · rfl

/-- No variant of a node changes. -/
theorem declaration_iff (h : s.Cut parent id t) (id' : NodeId) :
    (∃ b, (t.node id').body = .declaration b) ↔ ∃ b, (s.node id').body = .declaration b := by
  rw [h.node]
  split
  · rename_i here
    rw [here]
  · split
    · rename_i above
      rw [above]
      exact Node.mapChildren_eq_declaration
    · exact Iff.rfl

/-- What was cut from where it hung is a loss. -/
theorem loses (h : s.Cut parent id t) (above : (s.node id).parent = some parent) : s.Loses id t where
  size := h.size
  node := fun id' => by
    rw [h.node, above]
    by_cases here : id' = id
    · rw [if_pos here, if_pos here, if_neg fun eq => h.ne ((Option.some.inj eq).trans here), here]
    · rw [if_neg here, if_neg here]
      by_cases owner : id' = parent
      · rw [if_pos owner, if_pos (congrArg some owner.symm), owner]
      · rw [if_neg owner, if_neg fun eq => owner (Option.some.inj eq).symm]

end Cut

/-- What was lost where it hung was cut from there. -/
theorem Loses.cut {parent id : NodeId} (h : s.Loses id t) (above : (s.node id).parent = some parent)
    (ne : parent ≠ id) : s.Cut parent id t where
  size := h.size
  node := fun id' => by
    rw [h.node, above]
    by_cases here : id' = id
    · rw [if_pos here, if_pos here, if_neg fun eq => ne ((Option.some.inj eq).trans here), here]
    · rw [if_neg here, if_neg here]
      by_cases owner : id' = parent
      · rw [if_pos owner, if_pos (congrArg some owner.symm), owner]
      · rw [if_neg owner, if_neg fun eq => owner (Option.some.inj eq).symm]
  ne := ne

section Cut

variable {parent id : NodeId}

/-- What was taken away is listed no more, all else still is. -/
theorem lists_cut (h : s.Ordered root) (cut : s.Cut parent id t) (structural : s.Structural root parent)
    (listed : s.Lists parent id) (declaration : ∃ b, (s.node id).body = .declaration b) {a b : NodeId}
    (way : s.Structural root a) : t.Lists a b ↔ s.Lists a b ∧ b ≠ id := by
  have limb : ∀ {c}, c ∈ (s.node a).limbs → c ≠ id := by
    rintro c mem rfl
    obtain ⟨b, eq⟩ := declaration
    exact h.limb way mem b eq
  unfold Lists
  rw [cut.children, cut.limbs]
  split
  · rename_i here
    rw [here, (h.nodup structural).mem_erase_iff, ← here]
    constructor
    · rintro (⟨ne, child⟩ | mem)
      · exact ⟨Or.inl child, ne⟩
      · exact ⟨Or.inr mem, limb mem⟩
    · rintro ⟨child | mem, ne⟩
      · exact Or.inl ⟨ne, child⟩
      · exact Or.inr mem
  · rename_i other
    refine ⟨fun mem => ⟨mem, ?_⟩, And.left⟩
    rintro rfl
    exact other (h.unique way mem structural listed)

/-- The tree loses what was taken away, with all that is listed below it. -/
theorem structural_cut (h : s.Ordered root) (cut : s.Cut parent id t) (structural : s.Structural root parent)
    (listed : s.Lists parent id) (declaration : ∃ b, (s.node id).body = .declaration b) {id' : NodeId} :
    t.Structural root id' ↔ s.Structural root id' ∧ ¬s.Structural id id' := by
  have lists := fun {a b} => lists_cut (a := a) (b := b) h cut structural listed declaration
  have top : s.Structural root id := structural.tail listed
  constructor
  · intro way
    induction way with
    | refl =>
      refine ⟨.refl, fun below => ?_⟩
      rcases below.cases_tail with rfl | ⟨c, below, step⟩
      · exact h.top structural listed
      · exact h.top (top.trans below) step
    | @tail a b _ step ih =>
      obtain ⟨way, apart⟩ := ih
      obtain ⟨step, ne⟩ := (lists way).1 step
      refine ⟨way.tail step, fun below => ?_⟩
      rcases below.cases_tail with rfl | ⟨c, below, step'⟩
      · exact ne rfl
      · exact apart (h.unique (top.trans below) step' way step ▸ below)
  · rintro ⟨way, apart⟩
    induction way with
    | refl => exact .refl
    | @tail a b before step ih =>
      refine (ih fun below => apart (below.tail step)).tail ((lists before).2 ⟨step, ?_⟩)
      rintro rfl
      exact apart .refl

/-- A tree from which a declaration was taken is rooted. -/
theorem Rooted.cut (h : s.Rooted root) (cut : s.Cut parent id t) (structural : s.Structural root parent)
    (listed : s.Lists parent id) (declaration : ∃ b, (s.node id).body = .declaration b) : t.Rooted root where
  toOrdered := h.toOrdered.loses (cut.loses (h.parent structural listed))
  loose := by
    refine (cut.parent_same ?_).trans h.loose
    rintro rfl
    exact h.top structural listed
  parent := fun {a b} way step => by
    have before := (structural_cut h.toOrdered cut structural listed declaration).1 way
    obtain ⟨step, ne⟩ := (lists_cut h.toOrdered cut structural listed declaration before.1).1 step
    exact (cut.parent_same ne).trans (h.parent before.1 step)

end Cut

end DocTree.Store
