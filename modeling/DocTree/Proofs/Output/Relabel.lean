import DocTree.Proofs.Output.Reader

/-!
# Output under other numbers

* `relabel ids targets v` : the form `v` with other values for the numbers of nodes and other numbers for what
  references point at;
* `relabel_toValue`, `relabel_bodyFields` : the form of a type or a node is relabelled by relabelling what is inside.
-/

namespace DocTree

section Relabel

variable (ids : NodeId → Value) (targets : NodeId → NodeId)

def relabelId : Value → Value
  | .int n => ids n.toNat
  | v => v

mutual

/-- A form with other values for the numbers of nodes, and other numbers for what references point at. -/
def relabel : Value → Value
  | .object fields => .object (relabelFields fields)
  | .list forms => .list (relabelForms forms)
  | .int n => .int (targets n.toNat)
  | v => v

def relabelFields : List (String × Value) → List (String × Value)
  | [] => []
  | (key, v) :: rest =>
    (key, if key = "id" then relabelId ids v else if dataFields.contains key then v
      else if key = "tail" then relabelTail v else relabel v) :: relabelFields rest

def relabelForms : List Value → List Value
  | [] => []
  | v :: vs => relabel v :: relabelForms vs

/-- The tail of a template lists pairs of a type and a text. -/
def relabelTail : Value → Value
  | .list pairs => .list (relabelPairs pairs)
  | v => v

def relabelPairs : List Value → List Value
  | [] => []
  | .list (form :: rest) :: pairs => .list (relabel form :: rest) :: relabelPairs pairs
  | v :: pairs => v :: relabelPairs pairs

end

end Relabel

variable {ids : NodeId → Value} {targets : NodeId → NodeId}

theorem relabelForms_eq (vs : List Value) : relabelForms ids targets vs = vs.map (relabel ids targets) := by
  induction vs with
  | nil => rfl
  | cons v vs ih => rw [relabelForms, ih, List.map_cons]

theorem relabelFields_append (fields fields' : List (String × Value)) :
    relabelFields ids targets (fields ++ fields') =
      relabelFields ids targets fields ++ relabelFields ids targets fields' := by
  induction fields with
  | nil => rfl
  | cons field fields ih => rw [List.cons_append, relabelFields, relabelFields, ih, List.cons_append]

theorem relabelFields_data {key : String} (data : dataFields.contains key = true) (other : key ≠ "id") (v : Value)
    (rest : List (String × Value)) :
    relabelFields ids targets ((key, v) :: rest) = (key, v) :: relabelFields ids targets rest := by
  rw [relabelFields, if_neg other, if_pos data]

theorem relabelFields_form {key : String} (form : dataFields.contains key = false) (other : key ≠ "tail") (v : Value)
    (rest : List (String × Value)) :
    relabelFields ids targets ((key, v) :: rest) = (key, relabel ids targets v) :: relabelFields ids targets rest := by
  have other' : key ≠ "id" := by
    rintro rfl
    cases form
  rw [relabelFields, if_neg other', form, if_neg Bool.false_ne_true, if_neg other]

/-! ## Types -/

namespace Ty

variable (target : Link → Option NodeId) (declared : NodeId → Value)

theorem relabelFields_present {key : String} (form : dataFields.contains key = false) (other : key ≠ "tail") (t : Ty)
    (v : Value) : relabelFields ids targets (present key t v) = present key t (relabel ids targets v) := by
  unfold present
  split
  · rfl
  · rw [relabelFields_form form other, relabelFields]

theorem relabelPairs_toTail (tail : List (Ty × Value)) : relabelPairs ids targets (toTail target declared tail) =
    tail.map fun p => .list [relabel ids targets (p.1.toValue target declared), p.2] := by
  induction tail with
  | nil => rfl
  | cons p tail ih => rw [toTail, relabelPairs, ih, List.map_cons]

/-- A type is relabelled through what it points at and the declarations in it. -/
theorem relabel_toValue (t : Ty) : relabel ids targets (t.toValue target declared) =
    t.toValue (fun link => (target link).map targets) fun id => relabel ids targets (declared id) := by
  induction t using children_induction with
  | step t ih =>
    cases t with
    | inferred _ c =>
      cases c <;> simp_all [toValue, relabel, relabelFields, dataFields, relabelFields_present, children]
    | predicate _ _ c =>
      cases c <;> simp_all [toValue, relabel, relabelFields, dataFields, relabelFields_present, children]
    | mapped _ _ _ c =>
      cases c <;> simp_all [toValue, relabel, relabelFields, dataFields, relabelFields_append,
        relabelFields_present, children]
    | reference _ link args package =>
      have skipped : relabelFields ids targets (optionalField "package" (unlessEmpty package)) =
          optionalField "package" (unlessEmpty package) := by
        cases unlessEmpty package <;> simp [optionalField, relabelFields, dataFields]
      have plain : relabel ids targets (((target link).map fun id : NodeId => Value.int id).getD .null) =
          (((target link).map targets).map fun id : NodeId => Value.int id).getD .null := by
        cases target link with
        | none => rfl
        | some id => rfl
      have inner : args.map (fun t => relabel ids targets (t.toValue target declared)) = _ := List.map_congr_left ih
      cases args <;>
        simp_all [toValue, relabel, relabelFields, dataFields, relabelFields_append, toValues_eq, relabelForms_eq]
    | template head tail =>
      have inner : relabelPairs ids targets (toTail target declared tail) =
          toTail (fun link => (target link).map targets) (fun id => relabel ids targets (declared id)) tail := by
        rw [relabelPairs_toTail, toTail_eq]
        exact List.map_congr_left fun p mem => by rw [ih p.1 (List.mem_map_of_mem mem)]
      cases tail <;> simp [toValue, relabel, relabelFields, dataFields, relabelTail, inner]
    | _ =>
      simp_all [toValue, relabel, relabelFields, dataFields, relabelFields_append,
        relabelFields_present, children, toValues_eq, relabelForms_eq]

end Ty

/-! ## Nodes -/

namespace Store

open Ty (optionalField unlessEmpty)

theorem relabelFields_listField {key : String} (form : dataFields.contains key = false) (other : key ≠ "tail")
    (items : List Value) :
    relabelFields ids targets (listField key items) = listField key (items.map (relabel ids targets)) := by
  unfold listField
  rw [List.isEmpty_map]
  split
  · rfl
  · rw [relabelFields_form form other, relabel, relabelForms_eq, relabelFields]

theorem relabelFields_optionalField {key : String} (form : dataFields.contains key = false) (other : key ≠ "tail")
    (v : Option Value) :
    relabelFields ids targets (optionalField key v) = optionalField key (v.map (relabel ids targets)) := by
  cases v with
  | none => rfl
  | some v => exact relabelFields_form form other v []

theorem relabelFields_optionalData {key : String} (data : dataFields.contains key = true) (other : key ≠ "id")
    (v : Option Value) : relabelFields ids targets (optionalField key v) = optionalField key v := by
  cases v with
  | none => rfl
  | some v => exact relabelFields_data data other v []

theorem relabelFields_bodyFields (type : Ty → Value) (node : NodeId → Value) (b : Body) :
    relabelFields ids targets (bodyFields type node b) =
      bodyFields (fun t => relabel ids targets (type t)) (fun id => relabel ids targets (node id)) b := by
  cases b <;>
    simp (disch := decide) only [bodyFields, relabelFields_append, relabelFields_listField, relabelFields_optionalField,
      relabelFields_optionalData, relabelFields, Option.map_map, List.map_map, Function.comp_def]

theorem relabel_nodeValueDepth (s : Store) (depth : Nat) (id : NodeId) :
    relabel ids targets (s.nodeValueDepth (depth + 1) id) =
      .object (("id", ids id) :: (s.headFields id).tail ++
        bodyFields (Ty.toValue (fun link => (s.resolve link).map targets)
            fun id => relabel ids targets (s.nodeValueDepth depth id))
          (fun id => relabel ids targets (s.nodeValueDepth depth id)) (s.node id).body ++
        listField "children" ((s.shownChildren id).map fun id => relabel ids targets (s.nodeValueDepth depth id))) := by
  have head : relabelFields ids targets (s.headFields id) = ("id", ids id) :: (s.headFields id).tail := by
    simp [headFields, relabelFields, dataFields, relabelId]
  rw [nodeValueDepth, relabel, relabelFields_append, relabelFields_append, head, relabelFields_bodyFields,
    relabelFields_listField (by decide) (by decide), List.map_map]
  simp only [Ty.relabel_toValue]
  rfl

end Store

end DocTree
