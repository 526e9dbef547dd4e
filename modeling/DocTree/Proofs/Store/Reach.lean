import DocTree.Missing
import DocTree.Store.Walk
import Mathlib.Data.Finset.Card
import Mathlib.Logic.Relation

/-!
# What a search and a walk reach

* `StepsTo r n a b` : `b` is reached from `a` in exactly `n` steps of `r`; `exists_stepsTo` : where
  something is reached at all, it is reached in no more steps than there are places to step from;
* `Store.Reaches s a b` : a search that starts at `a` comes to `b`; `mem_reached_iff` : the levels of
  the search hold exactly these nodes, whatever the store looks like;
* `mem_missing_iff` : the undocumented symbols below a node;
* `mem_walk_of_owned`, `owned_of_mem_walkDepth` : a walk visits what it can get to, and nothing else.
-/

namespace DocTree

/-! ## Counting steps -/

/-- `b` is reached from `a` in exactly `n` steps. -/
inductive StepsTo {α : Type*} (r : α → α → Prop) : Nat → α → α → Prop
  | refl (a : α) : StepsTo r 0 a a
  | head {n : Nat} {a b c : α} : r a b → StepsTo r n b c → StepsTo r (n + 1) a c

theorem StepsTo.mono {α : Type*} {r r' : α → α → Prop} (h : ∀ x y, r x y → r' x y) {n : Nat} {a b : α}
    (path : StepsTo r n a b) : StepsTo r' n a b := by
  induction path with
  | refl a => exact .refl a
  | head first _ ih => exact .head (h _ _ first) ih

theorem avoiding_or_last {α : Type*} {r : α → α → Prop} {a c : α} (b : α)
    (way : Relation.ReflTransGen r a c) :
    Relation.ReflTransGen (fun x y => r x y ∧ x ≠ b) a c ∨
      ∃ d, r b d ∧ Relation.ReflTransGen (fun x y => r x y ∧ x ≠ b) d c := by
  induction way using Relation.ReflTransGen.head_induction_on with
  | refl => exact Or.inl .refl
  | @head x y first _ ih =>
    rcases ih with avoiding | last
    · by_cases h : x = b
      · exact Or.inr ⟨y, h ▸ first, avoiding⟩
      · exact Or.inl (avoiding.head ⟨first, h⟩)
    · exact Or.inr last

/-- What is reached at all is reached in no more steps than there are places to step from. -/
theorem exists_stepsTo {α : Type*} [DecidableEq α] (sources : Finset α) :
    ∀ {r : α → α → Prop} {a c : α}, (∀ x y, r x y → x ∈ sources) → Relation.ReflTransGen r a c →
      ∃ n ≤ sources.card, StepsTo r n a c := by
  induction sources using Finset.strongInduction with
  | H sources ih =>
    intro r a c inside way
    rcases avoiding_or_last a way with avoiding | ⟨d, first, rest⟩
    · rcases avoiding.cases_head with rfl | ⟨d, step, _⟩
      · exact ⟨0, Nat.zero_le _, .refl a⟩
      · exact absurd rfl step.2
    · have here := inside _ _ first
      obtain ⟨n, bound, path⟩ := ih (sources.erase a) (Finset.erase_ssubset here)
        (fun x y step => Finset.mem_erase.2 ⟨step.2, inside _ _ step.1⟩) rest
      refine ⟨n + 1, ?_, .head first (path.mono fun _ _ step => step.1)⟩
      rw [Finset.card_erase_of_mem here] at bound
      have : 0 < sources.card := Finset.card_pos.2 ⟨a, here⟩
      omega

theorem avoiding_goal {α : Type*} {r : α → α → Prop} {a c : α} (way : Relation.ReflTransGen r a c) :
    Relation.ReflTransGen (fun x y => r x y ∧ x ≠ c) a c := by
  induction way using Relation.ReflTransGen.head_induction_on with
  | refl => exact .refl
  | @head x y first _ ih =>
    by_cases h : x = c
    · exact h ▸ .refl
    · exact ih.head ⟨first, h⟩

namespace Store

theorem node_of_size_le {s : Store} {id : NodeId} (h : s.nodes.size ≤ id) : s.node id = default := by
  rw [node, Array.getElem?_eq_none h]
  rfl

/-! ## Searches -/

/-- A search that starts at `a` comes to `b`. -/
def Reaches (s : Store) : NodeId → NodeId → Prop :=
  Relation.ReflTransGen fun x y => y ∈ (s.node x).successors

theorem Reaches.refl {s : Store} (a : NodeId) : s.Reaches a a := Relation.ReflTransGen.refl

theorem Reaches.single {s : Store} {a b : NodeId} (h : b ∈ (s.node a).successors) : s.Reaches a b :=
  Relation.ReflTransGen.single h

theorem Reaches.trans {s : Store} {a b c : NodeId} (h : s.Reaches a b) (h' : s.Reaches b c) :
    s.Reaches a c := Relation.ReflTransGen.trans h h'

theorem lt_of_mem_successors {s : Store} {a b : NodeId} (h : b ∈ (s.node a).successors) :
    a < s.nodes.size := by
  by_contra outside
  rw [node_of_size_le (Nat.le_of_not_lt outside)] at h
  cases h

theorem mem_levels_of_stepsTo {s : Store} {n depth : Nat} {a b : NodeId} {level : List NodeId}
    (path : StepsTo (fun x y => y ∈ (s.node x).successors) n a b) (start : a ∈ level)
    (enough : n < depth) : b ∈ s.levels depth level := by
  induction path generalizing depth level with
  | refl a =>
    obtain ⟨depth, rfl⟩ := Nat.exists_eq_add_one_of_ne_zero (Nat.ne_of_gt enough)
    cases level with
    | nil => cases start
    | cons c cs => exact List.mem_append_left _ start
  | @head n a c b first _ ih =>
    obtain ⟨depth, rfl⟩ := Nat.exists_eq_add_one_of_ne_zero (Nat.ne_of_gt (Nat.zero_lt_of_lt enough))
    cases level with
    | nil => cases start
    | cons d ds =>
      exact List.mem_append_right _
        (ih (List.mem_flatMap.2 ⟨a, start, first⟩) (Nat.lt_of_succ_lt_succ enough))

theorem reaches_of_mem_levels {s : Store} {depth : Nat} {level : List NodeId} {b : NodeId}
    (h : b ∈ s.levels depth level) : ∃ a ∈ level, s.Reaches a b := by
  induction depth generalizing level with
  | zero => cases h
  | succ depth ih =>
    cases level with
    | nil => cases h
    | cons c cs =>
      rcases List.mem_append.1 h with here | below
      · exact ⟨b, here, .refl b⟩
      · obtain ⟨d, next, way⟩ := ih below
        obtain ⟨a, start, first⟩ := List.mem_flatMap.1 next
        exact ⟨a, start, (Reaches.single first).trans way⟩

/-- A search visits exactly what it can come to. -/
theorem mem_reached_iff (s : Store) (root id : NodeId) : id ∈ s.reached root ↔ s.Reaches root id := by
  constructor
  · intro h
    obtain ⟨a, start, way⟩ := reaches_of_mem_levels h
    rw [List.mem_singleton] at start
    exact start ▸ way
  · intro way
    obtain ⟨n, bound, path⟩ := exists_stepsTo (Finset.range s.nodes.size)
      (fun x y step => Finset.mem_range.2 (lt_of_mem_successors step)) way
    rw [Finset.card_range] at bound
    exact mem_levels_of_stepsTo path (List.mem_singleton_self root) (Nat.lt_succ_of_le bound)

theorem mem_missing_iff (s : Store) (root : NodeId) (symbol : SymbolId) :
    symbol ∈ s.missing root ↔
      ∃ id, s.Reaches root id ∧ ∃ link ∈ (s.node id).links, s.missingSymbol link = some symbol := by
  simp only [missing, mem_firsts, List.mem_filterMap, List.mem_flatMap, mem_reached_iff]
  exact ⟨fun ⟨link, ⟨id, way, mem⟩, eq⟩ => ⟨id, way, link, mem, eq⟩,
    fun ⟨id, way, link, mem, eq⟩ => ⟨link, ⟨id, way, mem⟩, eq⟩⟩

theorem nodup_missing (s : Store) (root : NodeId) : (s.missing root).Nodup := nodup_firsts _

theorem Reaches.congr {s t : Store} {a b : NodeId} (way : s.Reaches a b)
    (same : ∀ id, s.Reaches a id → t.node id = s.node id) : t.Reaches a b := by
  induction way with
  | refl => exact .refl a
  | @tail x y before step ih =>
    exact ih.trans (.single ((same x before).symm ▸ step))

/-! ## Walks -/

theorem mem_walkDepth_of_stepsTo {s : Store} {n depth : Nat} {a b : NodeId}
    (path : StepsTo (fun x y => y ∈ s.owned x) n a b) (enough : n < depth) :
    b ∈ s.walkDepth depth a := by
  induction path generalizing depth with
  | refl a =>
    obtain ⟨depth, rfl⟩ := Nat.exists_eq_add_one_of_ne_zero (Nat.ne_of_gt enough)
    exact List.mem_cons_self
  | @head n a c b first _ ih =>
    obtain ⟨depth, rfl⟩ := Nat.exists_eq_add_one_of_ne_zero (Nat.ne_of_gt (Nat.zero_lt_of_lt enough))
    exact List.mem_cons_of_mem _
      (List.mem_flatMap.2 ⟨c, first, ih (Nat.lt_of_succ_lt_succ enough)⟩)

theorem lt_of_mem_owned {s : Store} {a b : NodeId} (h : b ∈ s.owned a) : a < s.nodes.size := by
  by_contra outside
  rw [owned, node_of_size_le (Nat.le_of_not_lt outside)] at h
  cases h

theorem mem_walk_of_owned {s : Store} {a b : NodeId}
    (way : Relation.ReflTransGen (fun x y => y ∈ s.owned x) a b) (inside : b < s.nodes.size) :
    b ∈ s.walk a := by
  obtain ⟨n, bound, path⟩ := exists_stepsTo ((Finset.range s.nodes.size).erase b)
    (fun x y step => Finset.mem_erase.2 ⟨step.2, Finset.mem_range.2 (lt_of_mem_owned step.1)⟩)
    (avoiding_goal way)
  rw [Finset.card_erase_of_mem (Finset.mem_range.2 inside), Finset.card_range] at bound
  have : 0 < s.nodes.size := Nat.zero_lt_of_lt inside
  have enough : n < s.nodes.size := by omega
  exact mem_walkDepth_of_stepsTo (path.mono fun _ _ step => step.1) enough

theorem owned_of_mem_walkDepth {s : Store} {depth : Nat} {a b : NodeId} (visited : b ∈ s.walkDepth depth a) :
    Relation.ReflTransGen (fun x y => y ∈ s.owned x) a b := by
  induction depth generalizing a with
  | zero => cases visited
  | succ depth ih =>
    rcases List.mem_cons.1 visited with rfl | visited
    · exact .refl
    · obtain ⟨c, first, visited⟩ := List.mem_flatMap.1 visited
      exact .head first (ih visited)

end Store

end DocTree
