import DocTree.Proofs.Convert.Declare
import DocTree.Proofs.Faithful.Reading

/-!
# Forms without numbers

Forms of nodes are computed down to some depth; deep enough, they do not depend on it.

* `Eventually f a` : `f` is `a` at all great depths; `Eventually.map₂`, `eventually_map`, `Eventually.succ`;
* `Store.bareForm`, `Store.bareType` : the form of a node and of a type, with the places of exports for targets;
* `eventually_node` : the form of a node, by what is inside;
* `Description.fields` : the fields of a declaration that is made by a description; `eventually_described`.
-/

namespace DocTree

variable {α β γ : Type}

/-! ## In the end -/

/-- At all great depths, `f` is `a`. -/
def Eventually (f : Nat → α) (a : α) : Prop := ∃ enough, ∀ depth ≥ enough, f depth = a

theorem eventually_const (a : α) : Eventually (fun _ => a) a := ⟨0, fun _ _ => rfl⟩

theorem Eventually.congr {f f' : Nat → α} {a : α} (h : Eventually f a) (same : ∀ depth, f' depth = f depth) :
    Eventually f' a := by
  obtain ⟨enough, eq⟩ := h
  exact ⟨enough, fun depth le => (same depth).trans (eq depth le)⟩

theorem Eventually.map {f : Nat → α} {a : α} (h : Eventually f a) (k : α → β) :
    Eventually (fun depth => k (f depth)) (k a) := by
  obtain ⟨enough, eq⟩ := h
  exact ⟨enough, fun depth le => congrArg k (eq depth le)⟩

theorem Eventually.map₂ {f : Nat → α} {f' : Nat → β} {a : α} {b : β} (h : Eventually f a) (h' : Eventually f' b)
    (k : α → β → γ) : Eventually (fun depth => k (f depth) (f' depth)) (k a b) := by
  obtain ⟨enough, eq⟩ := h
  obtain ⟨enough', eq'⟩ := h'
  exact ⟨max enough enough', fun depth le =>
    congrArg₂ k (eq depth (le_of_max_le_left le)) (eq' depth (le_of_max_le_right le))⟩

theorem Eventually.succ {f : Nat → α} {a : α} (h : Eventually (fun depth => f (depth + 1)) a) : Eventually f a := by
  obtain ⟨enough, eq⟩ := h
  refine ⟨enough + 1, fun depth le => ?_⟩
  obtain ⟨depth, rfl⟩ := Nat.exists_eq_add_one_of_ne_zero (Nat.ne_of_gt (Nat.lt_of_lt_of_le enough.succ_pos le))
  exact eq depth (Nat.le_of_succ_le_succ le)

theorem eventually_map {f : Nat → α → β} {xs : List α} {ys : List β}
    (h : List.Forall₂ (fun x y => Eventually (f · x) y) xs ys) : Eventually (fun depth => xs.map (f depth)) ys := by
  induction h with
  | nil => exact eventually_const []
  | cons first _ ih => exact first.map₂ ih List.cons

/-! ## Nodes and types -/

namespace Store

open Ty (optionalField unlessEmpty)
open Document (nodeForm)

variable (s : Store) (place : NodeId → Nat)

def bareForm (depth : Nat) (id : NodeId) : Value := relabel (fun _ => .null) place (s.nodeValueDepth depth id)

def bareType (depth : Nat) (t : Ty) : Value :=
  t.toValue (fun link => (s.resolve link).map place) (s.bareForm place depth)

variable {s place}

theorem shownChildren_eq (strays : s.strays = .empty) (id : NodeId) : s.shownChildren id = s.children id := by
  unfold shownChildren
  rw [strays, isContainer, children]
  cases (s.node id).body <;> rfl

theorem bareForm_succ (strays : s.strays = .empty) (depth : Nat) (id : NodeId) : s.bareForm place (depth + 1) id =
    nodeForm (s.node id).name (s.node id).body.variant (s.node id).kind
      (bodyFields (s.bareType place depth) (s.bareForm place depth) (s.node id).body)
      ((s.children id).map (s.bareForm place depth)) := by
  have variant : s.variant id = .str (s.node id).body.variant := by
    unfold Store.variant
    rw [strays]
    rfl
  unfold bareForm
  rw [relabel_nodeValueDepth, shownChildren_eq strays, headFields, variant]
  rfl

/-- What the form of a node is in the end, by what is inside. -/
theorem eventually_node (strays : s.strays = .empty) {id : NodeId} {n : Node} (here : s.node id = n)
    {fields : List (String × Value)} {children : List Value}
    (body : Eventually (fun depth => bodyFields (s.bareType place depth) (s.bareForm place depth) n.body) fields)
    (inside : Eventually (fun depth => n.body.children.map (s.bareForm place depth)) children) :
    Eventually (s.bareForm place · id) (nodeForm n.name n.body.variant n.kind fields children) := by
  refine Eventually.succ ?_
  simp only [bareForm_succ strays, Store.children, here]
  exact body.map₂ inside (nodeForm n.name n.body.variant n.kind)

/-- Nodes that are made by shapes have the forms of the shapes, one level further down. -/
theorem eventually_shapes {make : α → Node} {form : (Ty → Value) → α → Value} {xs : List α} {forms : List Value}
    {id : NodeId}
    (one : ∀ depth x id, s.node id = make x → s.bareForm place (depth + 1) id = form (s.bareType place depth) x)
    (holds : s.Holds id (xs.map make)) (inside : Eventually (fun depth => xs.map (form (s.bareType place depth))) forms) :
    Eventually (fun depth => (List.range' id xs.length).map (s.bareForm place depth)) forms := by
  refine Eventually.succ ?_
  have same : ∀ depth, (List.range' id xs.length).map (s.bareForm place (depth + 1)) =
      xs.map (form (s.bareType place depth)) := by
    intro depth
    clear inside
    induction xs generalizing id with
    | nil => rfl
    | cons x xs ih =>
      obtain ⟨here, rest⟩ := Store.holds_cons.1 holds
      rw [List.length_cons, List.range'_succ, List.map_cons, List.map_cons, one depth x id here, ih rest]
  simpa only [same] using inside

end Store

/-! ## Descriptions -/

open Ty (optionalField unlessEmpty)
open Store (listField unlessNull)
open Document (nodeForm)

/-- The form of a type parameter that is made by a shape. -/
def TypeParameterShape.form (type : Ty → Value) (shape : TypeParameterShape) : Value :=
  nodeForm shape.name "typeParam" .typeParameter
    (optionalField "type" (shape.constraint.map type) ++ optionalField "default" (shape.fallback.map type)) []

/-- The form of a parameter that is made by a shape. -/
def ParameterShape.form (type : Ty → Value) (shape : ParameterShape) : Value :=
  nodeForm shape.name "param" .parameter (optionalField "type" (shape.type.map type)
    ++ optionalField "isOptional" (unlessEmpty shape.isOptional) ++ optionalField "isRest" (unlessEmpty shape.isRest)) []

/-- The form of a signature of a given kind and name that is made by a shape. -/
inductive SignatureShape.Tells (type : Nat → Ty → Value) (head : Kind × Value) (shape : SignatureShape) : Value → Prop
  | intro {typeParameters parameters : List Value} {result : Option Value} :
      Eventually (fun depth => shape.typeParameters.map (·.form (type depth))) typeParameters →
      Eventually (fun depth => shape.parameters.map (·.form (type depth))) parameters →
      Eventually (fun depth => shape.result.map (type depth)) result →
      Tells type head shape (nodeForm head.2 "signature" head.1 (listField "typeParameters" typeParameters
        ++ listField "parameters" parameters ++ optionalField "type" result) [])

/-- The fields of a declaration that is made by a description, by the kind and name of its signatures. -/
inductive Description.Tells (type : Nat → Ty → Value) (head : Kind × Value) (d : Description) :
    List (String × Value) → Prop
  | intro {t : Option Value} {typeParameters signatures extended implemented : List Value} :
      Eventually (fun depth => d.type.map (type depth)) t →
      Eventually (fun depth => d.typeParameters.map (·.form (type depth))) typeParameters →
      List.Forall₂ (SignatureShape.Tells type head) d.signatures signatures →
      Eventually (fun depth => d.extendedTypes.map (type depth)) extended →
      Eventually (fun depth => d.implementedTypes.map (type depth)) implemented →
      Tells type head d (optionalField "type" t ++ optionalField "defaultValue" (unlessNull d.defaultValue)
        ++ listField "typeParameters" typeParameters ++ listField "signatures" signatures
        ++ listField "extendedTypes" extended ++ listField "implementedTypes" implemented)

namespace Workspace

variable {s : Store} {place : NodeId → Nat} {id : NodeId}

theorem bareForm_typeParameter (strays : s.strays = .empty) (parent : NodeId) (depth : Nat) (shape : TypeParameterShape)
    (id : NodeId) (here : s.node id = typeParameterNode parent shape) :
    s.bareForm place (depth + 1) id = shape.form (s.bareType place depth) := by
  rw [Store.bareForm_succ strays, Store.children, here]
  rfl

theorem bareForm_parameter (strays : s.strays = .empty) (parent : NodeId) (depth : Nat) (shape : ParameterShape)
    (id : NodeId) (here : s.node id = parameterNode parent shape) :
    s.bareForm place (depth + 1) id = shape.form (s.bareType place depth) := by
  rw [Store.bareForm_succ strays, Store.children, here]
  rfl

theorem eventually_signature (strays : s.strays = .empty) {owner : Node} {parent : NodeId} {shape : SignatureShape}
    {form : Value} (holds : s.Holds id (signatureNodes owner parent id shape))
    (tells : shape.Tells (s.bareType place) (signatureHead owner) form) : Eventually (s.bareForm place · id) form := by
  cases tells with
  | intro typeParameters parameters result =>
    obtain ⟨here, rest⟩ := Store.holds_cons.1 holds
    obtain ⟨first, second⟩ := Store.holds_append.1 rest
    rw [List.length_map] at second
    refine Store.eventually_node strays here ?_ (eventually_const [])
    have types := Store.eventually_shapes (bareForm_typeParameter strays id) first typeParameters
    have others := Store.eventually_shapes (bareForm_parameter strays id) second parameters
    exact (types.map₂ others fun ts ps => listField "typeParameters" ts ++ listField "parameters" ps).map₂ result
      fun front t => front ++ optionalField "type" t

theorem eventually_signatures (strays : s.strays = .empty) {owner : Node} {parent : NodeId} {shapes : List SignatureShape}
    {forms : List Value} (holds : s.Holds id (signaturesNodes owner parent id shapes))
    (tells : List.Forall₂ (SignatureShape.Tells (s.bareType place) (signatureHead owner)) shapes forms) :
    Eventually (fun depth => (signatureIds owner parent id shapes).map (s.bareForm place depth)) forms := by
  induction tells generalizing id with
  | nil => exact eventually_const []
  | cons first _ ih =>
    obtain ⟨here, rest⟩ := Store.holds_append.1 holds
    exact (eventually_signature strays here first).map₂ (ih rest) List.cons

theorem bodyFields_described (type : Ty → Value) (node : NodeId → Value) (d : Description)
    (typeParameters signatures children : List NodeId) :
    Store.bodyFields type node (describedBody d typeParameters signatures (.declaration { children := children })) =
      optionalField "type" (d.type.map type) ++ optionalField "defaultValue" (unlessNull d.defaultValue)
        ++ listField "typeParameters" (typeParameters.map node) ++ listField "signatures" (signatures.map node)
        ++ listField "extendedTypes" (d.extendedTypes.map type)
        ++ listField "implementedTypes" (d.implementedTypes.map type) := by
  show _ ++ [] ++ [] ++ [] ++ _ ++ _ = _
  simp only [List.append_nil]

/-- A declaration that was filled by a description has the fields that the description tells. -/
theorem eventually_described (strays : s.strays = .empty) {owner : Node} {d : Description} {children : List NodeId}
    {fields : List (String × Value)} (holds : s.Holds (id + 1) (d.typeParameters.map (typeParameterNode id)
      ++ signaturesNodes owner id (id + 1 + d.typeParameters.length) d.signatures))
    (tells : d.Tells (s.bareType place) (signatureHead owner) fields) :
    Eventually (fun depth => Store.bodyFields (s.bareType place depth) (s.bareForm place depth)
      (describedBody d (List.range' (id + 1) d.typeParameters.length)
        (signatureIds owner id (id + 1 + d.typeParameters.length) d.signatures)
        (.declaration { children := children }))) fields := by
  obtain ⟨first, second⟩ := Store.holds_append.1 holds
  rw [List.length_map] at second
  cases tells with
  | intro type typeParameters signatures extended implemented =>
    have parts := (Store.eventually_shapes (bareForm_typeParameter strays id) first typeParameters).map₂
      (eventually_signatures strays second signatures) fun ts ss =>
        listField "typeParameters" ts ++ listField "signatures" ss
    have types := extended.map₂ implemented fun ext imp =>
      listField "extendedTypes" ext ++ listField "implementedTypes" imp
    have all := (type.map₂ parts fun t parts => optionalField "type" t
      ++ optionalField "defaultValue" (unlessNull d.defaultValue) ++ parts).map₂ types fun front types => front ++ types
    simp only [bodyFields_described, List.append_assoc] at all ⊢
    exact all

end Workspace

end DocTree
