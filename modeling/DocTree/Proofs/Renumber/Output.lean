import DocTree.Proofs.Output.Relabel
import DocTree.Proofs.Renumber.Search

/-!
# Output under other numbers

* `toValue_renumber`, `bodyFields_renumber` : the form of what has new numbers;
* `Mirror.nodeValue` : stores that say the same are written alike, up to the numbers in the output.
-/

namespace DocTree

variable {ρ : Renumbering}

/-- The form of a type with new numbers goes by where links lead under new numbers. -/
theorem Ty.toValue_renumber (target : Link → Option NodeId) (declared : NodeId → Value) (t : Ty) :
    (t.renumber ρ).toValue target declared =
      t.toValue (fun link => target (link.renumber ρ)) fun id => declared (ρ.node id) := by
  induction t using children_induction with
  | step t ih =>
    cases t with
    | inferred _ c => cases c <;> simp_all [renumber, toValue, children, present, isAbsent_renumber]
    | predicate _ _ c => cases c <;> simp_all [renumber, toValue, children, present, isAbsent_renumber]
    | mapped _ _ _ c => cases c <;> simp_all [renumber, toValue, children, present, isAbsent_renumber]
    | template head tail =>
      have inner : toTail target declared (renumberTail ρ tail) =
          toTail (fun link => target (link.renumber ρ)) (fun id => declared (ρ.node id)) tail := by
        rw [renumberTail_eq, toTail_eq, toTail_eq, List.map_map]
        exact List.map_congr_left fun p mem => congrArg (fun v => Value.list [v, p.2]) (ih p.1 (List.mem_map_of_mem mem))
      have empty : (renumberTail ρ tail).isEmpty = tail.isEmpty := by
        rw [renumberTail_eq, List.isEmpty_map]
      simp only [renumber, toValue, inner, empty]
    | reference name link args package =>
      have inner : args.map (toValue target declared ∘ renumber ρ) = args.map _ := List.map_congr_left ih
      simp only [renumber, renumberAll_eq, toValue, toValues_eq, List.map_map, List.isEmpty_map, inner]
    | _ => simp_all [renumber, renumberAll_eq, toValue, toValues_eq, children, present, isAbsent_renumber]

namespace Store

open Ty (optionalField unlessEmpty)

theorem bodyFields_renumber (type : Ty → Value) (node : NodeId → Value) (b : Body) :
    bodyFields type node (b.renumber ρ) = bodyFields (fun t => type (t.renumber ρ)) (fun id => node (ρ.node id)) b := by
  cases b <;> simp only [Body.renumber, bodyFields, List.map_map, Option.map_map, Option.toList_map, Function.comp_def]

variable {s t : Store}

theorem Mirror.nodeValueDepth (h : s.Mirror ρ t) (depth : Nat) (id : NodeId) :
    t.nodeValueDepth depth (ρ.node id) =
      relabel (fun id => .int (ρ.node id)) ρ.node (s.nodeValueDepth depth id) := by
  induction depth generalizing id with
  | zero => rfl
  | succ depth ih =>
    have shown : t.shownChildren (ρ.node id) = (s.shownChildren id).map ρ.node := by
      unfold Store.shownChildren
      rw [h.isContainer, h.children, h.strays, h.strays']
      split <;> rfl
    have head : t.headFields (ρ.node id) = ("id", .int (ρ.node id)) :: (s.headFields id).tail := by
      unfold Store.headFields Store.variant
      rw [h.name, h.kind, h.node, h.strays, h.strays']
      cases eq : (s.node id).body <;> simp [Node.renumber, eq, Body.renumber] <;> rfl
    rw [relabel_nodeValueDepth, Store.nodeValueDepth, shown, head, h.node, Node.body_renumber, bodyFields_renumber,
      List.map_map]
    simp only [Ty.toValue_renumber, h.resolve, ih, Function.comp_def]

/-- Stores that say the same are written alike, up to numbers. -/
theorem Mirror.nodeValue (h : s.Mirror ρ t) (id : NodeId) :
    t.nodeValue (ρ.node id) = relabel (fun id => .int (ρ.node id)) ρ.node (s.nodeValue id) := by
  rw [Store.nodeValue, h.size]
  exact h.nodeValueDepth _ id

end Store

end DocTree
