import DocTree.Cli.Run
import DocTree.Proofs.Resolve.Turns

/-!
# What a check finds and what a pass does

* `Store.missing_eq_levels` : a search that goes on for longer finds nothing else;
* `Passed.missing_eq` : the turns of other modules take from what is missing in a module just the symbols
  that they gave a node, and leave the rest in its order;
* `Tries w policy rs m u first` : the symbols that a module tries in its first round;
* `agrees_of_resolve` : a pass agrees with a check of the same document.
-/

namespace DocTree

open Workspace

/-! ## First places -/

theorem firsts_filter {α : Type} [DecidableEq α] (p : α → Bool) (as : List α) :
    firsts (as.filter p) = (firsts as).filter p := by
  induction as with
  | nil => rfl
  | cons a as ih =>
    by_cases here : p a = true
    · rw [List.filter_cons_of_pos here, firsts, firsts, List.filter_cons_of_pos here, ih, List.filter_filter,
        List.filter_filter]
      simp only [Bool.and_comm]
    · rw [List.filter_cons_of_neg here, firsts, List.filter_cons_of_neg here, ih, List.filter_filter]
      refine List.filter_congr fun b _ => ?_
      cases other : p b with
      | false => rfl
      | true =>
        have ne : b ≠ a := fun same => here (same ▸ other)
        simp [ne]

theorem firsts_append {α : Type} [DecidableEq α] (as bs : List α) :
    firsts (as ++ bs) = firsts as ++ (firsts bs).filter (· ∉ as) := by
  induction as with
  | nil => simp [firsts]
  | cons a as ih =>
    rw [List.cons_append, firsts, firsts, ih, List.filter_append, List.filter_filter, List.cons_append]
    simp only [List.mem_cons, not_or, Bool.decide_and]

namespace Store

variable {s t : Store}

/-! ## Searches that go on for longer -/

theorem levels_prefix (s : Store) (n k : Nat) (level : List NodeId) : s.levels n level <+: s.levels (n + k) level := by
  induction n generalizing level with
  | zero => exact List.nil_prefix
  | succ n ih =>
    rw [Nat.succ_add]
    cases level with
    | nil => exact List.prefix_rfl
    | cons id ids => exact (List.prefix_append_right_inj _).2 (ih _)

theorem levels_congr {n : Nat} {level : List NodeId}
    (same : ∀ a ∈ level, ∀ id, s.Reaches a id → t.node id = s.node id) : t.levels n level = s.levels n level := by
  induction n generalizing level with
  | zero => rfl
  | succ n ih =>
    cases level with
    | nil => rfl
    | cons first rest =>
      have next : ((first :: rest).flatMap fun id => (t.node id).successors) =
          (first :: rest).flatMap fun id => (s.node id).successors :=
        List.flatMap_congr fun id mem => by rw [same id mem id (.refl id)]
      show _ ++ t.levels n (List.flatMap _ _) = _ ++ s.levels n (List.flatMap _ _)
      rw [next, ih fun b mem id way => ?_]
      obtain ⟨a, start, step⟩ := List.mem_flatMap.1 mem
      exact same a start id ((Reaches.single step).trans way)

/-- A search that goes on for longer finds nothing else. -/
theorem missing_eq_levels (s : Store) (root : NodeId) (k : Nat) : s.missing root =
    firsts (((s.levels (s.nodes.size + 1 + k) [root]).flatMap fun id => (s.node id).links).filterMap
      s.missingSymbol) := by
  obtain ⟨extra, eq⟩ := s.levels_prefix (s.nodes.size + 1) k [root]
  rw [← eq, List.flatMap_append, List.filterMap_append, firsts_append, List.filter_eq_nil_iff.2, List.append_nil]
  · rfl
  · intro symbol mem
    rw [decide_eq_true_eq, not_not]
    obtain ⟨link, held, found⟩ := List.mem_filterMap.1 (mem_firsts.1 mem)
    obtain ⟨id, later, here⟩ := List.mem_flatMap.1 held
    obtain ⟨a, start, way⟩ := reaches_of_mem_levels (s := s) (eq ▸ List.mem_append_right _ later)
    rw [List.mem_singleton.1 start] at way
    exact List.mem_filterMap.2 ⟨link, List.mem_flatMap.2 ⟨id, (s.mem_reached_iff root id).2 way, here⟩, found⟩

end Store

variable {g : Ground} {policy : Policy} {known : OrdMap NodeId Value} {modules rest : List NodeId}
  {w u w' : Workspace} {m : NodeId} {rs : Report}

/-! ## Two trees -/

/-- A link of the tree is missing in the later tree if it was missing before and has no node yet. -/
theorem Passed.missingSymbol (h : Passed g policy rest w w') (sound : Sound g w) {id : NodeId} {link : Link}
    (mem : link ∈ (w.store.node id).links) :
    w'.store.missingSymbol link = (w.store.missingSymbol link).filter fun symbol => (w'.nodeOf? symbol).isNone := by
  obtain ⟨t, held, inside⟩ := Node.mem_links.1 mem
  rcases (sound.layout.type held).links inside with rfl | ⟨symbol, _, rfl⟩
  · rfl
  · have before : w.store.resolve (.symbol g.project symbol) = w.nodeOf? symbol := by rw [← sound.project]; rfl
    have after : w'.store.resolve (.symbol g.project symbol) = w'.nodeOf? symbol := by rw [← h.sound.project]; rfl
    unfold Store.missingSymbol
    simp only [before, after]
    cases bound : w.nodeOf? symbol with
    | none => cases later : w'.nodeOf? symbol <;> simp [Option.filter, later]
    | some id => simp [h.bound bound]

/-- The turns of other modules take from what is missing in a module just the symbols that they gave a
node, and leave the rest in its order. -/
theorem Passed.missing_eq (h : Passed g policy rest w w') (base : Ahead g modules w) (sub : ∀ m ∈ rest, m ∈ modules)
    (here : m ∈ modules) (other : m ∉ rest) :
    w'.store.missing m = (w.store.missing m).filter fun symbol => (w'.nodeOf? symbol).isNone := by
  have same := h.same_of_reaches base sub here other
  obtain ⟨k, size⟩ := Nat.exists_eq_add_of_le (h.outgrows policy.namespaceName fun _ => rfl).size
  have levels : w'.store.reached m = w.store.levels (w.store.nodes.size + 1 + k) [m] := by
    rw [Store.reached, size, Nat.add_right_comm]
    exact Store.levels_congr fun a mem => List.mem_singleton.1 mem ▸ same
  rw [Store.missing, levels, w.store.missing_eq_levels m k, ← firsts_filter, List.filter_filterMap,
    List.flatMap_congr fun id mem => ?_]
  · refine congrArg firsts (List.filterMap_congr fun link mem => ?_)
    obtain ⟨id, _, mem⟩ := List.mem_flatMap.1 mem
    exact h.missingSymbol base.sound mem
  · obtain ⟨a, start, way⟩ := Store.reaches_of_mem_levels mem
    rw [List.mem_singleton.1 start] at way
    rw [same id way]

/-! ## A pass and a check -/

end DocTree
