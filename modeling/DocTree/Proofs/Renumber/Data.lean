import DocTree.Proofs.Output.Reader
import DocTree.Report
import Mathlib.Logic.Equiv.Basic

/-!
# New numbers

The numbers of nodes and symbols say in which order these were made, and nothing else.

* `Renumbering` : a bijection for the numbers of nodes, and one for those of symbols;
* `Link.renumber`, `Ty.renumber`, `Node.renumber`, `Symbol.renumber`, `ModuleReport.renumber` : data with new
  numbers;
* `Ty.children_renumber`, `Node.parts_renumber`, `Node.links_renumber`, … : what is read off it is what is read off
  the data, with new numbers.
-/

namespace DocTree

/-- New numbers for nodes and for symbols. -/
structure Renumbering where
  node : Equiv.Perm NodeId
  symbol : Equiv.Perm SymbolId

/-- A link to the same thing under its new number. -/
def Link.renumber (ρ : Renumbering) : Link → Link
  | .external => .external
  | .node project (.ofNat id) => .node (ρ.node project) (.ofNat (ρ.node id))
  | .node project (.negSucc id) => .node (ρ.node project) (.negSucc id)
  | .symbol project X => .symbol (ρ.node project) (ρ.symbol X)
  | .loose X => .loose (ρ.symbol X)

namespace Ty

mutual

/-- A type with new numbers. -/
def renumber (ρ : Renumbering) : Ty → Ty
  | intrinsic name => intrinsic name
  | literal value => literal value
  | unknown name => unknown name
  | reference name link args package => reference name (link.renumber ρ) (renumberAll ρ args) package
  | inline id => inline (ρ.node id)
  | array e => array (renumber ρ e)
  | union ts => union (renumberAll ρ ts)
  | intersection ts => intersection (renumberAll ρ ts)
  | tuple ts => tuple (renumberAll ρ ts)
  | namedMember name isOptional e => namedMember name isOptional (renumber ρ e)
  | optional e => optional (renumber ρ e)
  | rest e => rest (renumber ρ e)
  | conditional a b c d => conditional (renumber ρ a) (renumber ρ b) (renumber ρ c) (renumber ρ d)
  | indexedAccess a b => indexedAccess (renumber ρ a) (renumber ρ b)
  | inferred name none => inferred name none
  | inferred name (some c) => inferred name (some (renumber ρ c))
  | mapped parameter a b none => mapped parameter (renumber ρ a) (renumber ρ b) none
  | mapped parameter a b (some c) => mapped parameter (renumber ρ a) (renumber ρ b) (some (renumber ρ c))
  | predicate name asserts none => predicate name asserts none
  | predicate name asserts (some t) => predicate name asserts (some (renumber ρ t))
  | query t => query (renumber ρ t)
  | operator name t => operator name (renumber ρ t)
  | template head tail => template head (renumberTail ρ tail)
  | absent => absent

def renumberAll (ρ : Renumbering) : List Ty → List Ty
  | [] => []
  | t :: ts => renumber ρ t :: renumberAll ρ ts

def renumberTail (ρ : Renumbering) : List (Ty × Value) → List (Ty × Value)
  | [] => []
  | (t, text) :: ts => (renumber ρ t, text) :: renumberTail ρ ts

end

variable (ρ : Renumbering)

theorem renumberAll_eq (ts : List Ty) : renumberAll ρ ts = ts.map (renumber ρ) := by
  induction ts with
  | nil => rfl
  | cons t ts ih => rw [renumberAll, ih, List.map_cons]

theorem renumberTail_eq (ts : List (Ty × Value)) :
    renumberTail ρ ts = ts.map fun p => (p.1.renumber ρ, p.2) := by
  induction ts with
  | nil => rfl
  | cons t ts ih => rw [renumberTail, ih, List.map_cons]

theorem children_renumber (t : Ty) : (t.renumber ρ).children = t.children.map (renumber ρ) := by
  cases t with
  | inferred _ c => cases c <;> simp [renumber, children]
  | predicate _ _ c => cases c <;> simp [renumber, children]
  | mapped _ _ _ c => cases c <;> simp [renumber, children]
  | template _ tail => simp [renumber, children, renumberTail_eq]
  | _ => simp [renumber, children, renumberAll_eq]

theorem isAbsent_renumber (t : Ty) : (t.renumber ρ).isAbsent = t.isAbsent := by
  cases t with
  | inferred _ c => cases c <;> rfl
  | predicate _ _ c => cases c <;> rfl
  | mapped _ _ _ c => cases c <;> rfl
  | _ => rfl

theorem nested_renumber (t : Ty) : (t.renumber ρ).nested = t.nested.map (renumber ρ) := by
  induction t using children_induction with
  | step t ih =>
    rw [nested_eq, nested_eq, children_renumber, List.map_cons, List.flatMap_map, List.map_flatMap]
    exact congrArg _ (List.flatMap_congr ih)

theorem links_renumber (t : Ty) : (t.renumber ρ).links = t.links.map (Link.renumber ρ) := by
  induction t using children_induction with
  | step t ih =>
    rw [links_eq, links_eq, children_renumber, List.flatMap_map, List.map_append, List.map_flatMap,
      List.flatMap_congr ih]
    cases t with
    | inferred _ c => cases c <;> rfl
    | predicate _ _ c => cases c <;> rfl
    | mapped _ _ _ c => cases c <;> rfl
    | _ => rfl

theorem inlines_renumber (t : Ty) : (t.renumber ρ).inlines = t.inlines.map ρ.node := by
  induction t using children_induction with
  | step t ih =>
    rw [inlines_eq, inlines_eq, children_renumber, List.flatMap_map, List.map_append, List.map_flatMap,
      List.flatMap_congr ih]
    cases t with
    | inferred _ c => cases c <;> rfl
    | predicate _ _ c => cases c <;> rfl
    | mapped _ _ _ c => cases c <;> rfl
    | _ => rfl

theorem isComplete_renumber (t : Ty) : (t.renumber ρ).isComplete = t.isComplete := by
  unfold isComplete
  rw [nested_renumber, List.all_map]
  exact List.all_congr rfl fun u => congrArg Bool.not (isAbsent_renumber ρ u)

end Ty

/-! ## Nodes -/

/-- What a node holds, with new numbers. -/
def Body.renumber (ρ : Renumbering) : Body → Body
  | .bare => .bare
  | .project children => .project (children.map ρ.node)
  | .declaration b => .declaration
      { children := b.children.map ρ.node
        type := b.type.map (Ty.renumber ρ)
        defaultValue := b.defaultValue
        typeParameters := b.typeParameters.map ρ.node
        signatures := b.signatures.map ρ.node
        indexSignatures := b.indexSignatures.map ρ.node
        getSignature := b.getSignature.map ρ.node
        setSignature := b.setSignature.map ρ.node
        overwrites := b.overwrites.map (Ty.renumber ρ)
        inheritedFrom := b.inheritedFrom.map (Ty.renumber ρ)
        implementationOf := b.implementationOf.map (Ty.renumber ρ)
        extendedTypes := b.extendedTypes.map (Ty.renumber ρ)
        extendedBy := b.extendedBy.map (Ty.renumber ρ)
        implementedTypes := b.implementedTypes.map (Ty.renumber ρ)
        implementedBy := b.implementedBy.map (Ty.renumber ρ) }
  | .signature b => .signature
      { parameters := b.parameters.map ρ.node
        typeParameters := b.typeParameters.map ρ.node
        type := b.type.map (Ty.renumber ρ)
        overwrites := b.overwrites.map (Ty.renumber ρ)
        inheritedFrom := b.inheritedFrom.map (Ty.renumber ρ)
        implementationOf := b.implementationOf.map (Ty.renumber ρ) }
  | .parameter b => .parameter { b with type := b.type.map (Ty.renumber ρ) }
  | .typeParameter b => .typeParameter
      { constraint := b.constraint.map (Ty.renumber ρ), fallback := b.fallback.map (Ty.renumber ρ) }

/-- A node with new numbers. -/
def Node.renumber (ρ : Renumbering) (n : Node) : Node :=
  { n with parent := n.parent.map ρ.node, body := n.body.renumber ρ }

/-- What a search looks at, with new numbers. -/
def Part.renumber (ρ : Renumbering) : Part → Part
  | .node id => .node (ρ.node id)
  | .type t => .type (t.renumber ρ)

namespace Node

variable (ρ : Renumbering) (n : Node)

@[simp] theorem name_renumber : (n.renumber ρ).name = n.name := rfl

@[simp] theorem kind_renumber : (n.renumber ρ).kind = n.kind := rfl

@[simp] theorem parent_renumber : (n.renumber ρ).parent = n.parent.map ρ.node := rfl

@[simp] theorem body_renumber : (n.renumber ρ).body = n.body.renumber ρ := rfl

theorem isContainer_renumber (body : Body) : (body.renumber ρ).isContainer = body.isContainer := by
  cases body <;> rfl

theorem children_renumber (body : Body) : (body.renumber ρ).children = body.children.map ρ.node := by
  cases body <;> rfl

theorem parts_renumber : (n.renumber ρ).parts = n.parts.map (Part.renumber ρ) := by
  obtain ⟨name, kind, parent, body⟩ := n
  cases body <;>
    simp [renumber, Body.renumber, parts, Part.renumber, Function.comp_def, Option.toList_map]

theorem successors_renumber : (n.renumber ρ).successors = n.successors.map ρ.node := by
  unfold successors
  rw [parts_renumber, List.flatMap_map, List.map_flatMap]
  refine List.flatMap_congr fun p _ => ?_
  cases p with
  | node id => rfl
  | type t => exact Ty.inlines_renumber ρ t

theorem links_renumber : (n.renumber ρ).links = n.links.map (Link.renumber ρ) := by
  unfold links
  rw [parts_renumber, List.flatMap_map, List.map_flatMap]
  refine List.flatMap_congr fun p _ => ?_
  cases p with
  | node id => rfl
  | type t => exact Ty.links_renumber ρ t

theorem isComplete_renumber : (n.renumber ρ).isComplete = n.isComplete := by
  unfold isComplete
  rw [parts_renumber, List.all_map]
  refine List.all_congr rfl fun p => ?_
  cases p with
  | node id => rfl
  | type t => exact Ty.isComplete_renumber ρ t

theorem ofType_renumber (t : Option Ty) : ofType (t.map (Ty.renumber ρ)) = (ofType t).map ρ.node := by
  cases t with
  | none => rfl
  | some t =>
    cases t with
    | inferred _ c => cases c <;> rfl
    | predicate _ _ c => cases c <;> rfl
    | mapped _ _ _ c => cases c <;> rfl
    | _ => rfl

theorem owned_renumber : (n.renumber ρ).owned = n.owned.map ρ.node := by
  obtain ⟨name, kind, parent, body⟩ := n
  cases body <;> simp [renumber, Body.renumber, owned, ofType_renumber, Option.toList_map]

theorem mapChildren_renumber {f f' : List NodeId → List NodeId}
    (same : ∀ ids, f' (ids.map ρ.node) = (f ids).map ρ.node) (body : Body) :
    (body.renumber ρ).mapChildren f' = (body.mapChildren f).renumber ρ := by
  cases body <;> simp [Body.renumber, Body.mapChildren, same]

end Node

/-! ## Symbols -/

def TypeParameterShape.renumber (ρ : Renumbering) (s : TypeParameterShape) : TypeParameterShape :=
  { s with constraint := s.constraint.map (Ty.renumber ρ), fallback := s.fallback.map (Ty.renumber ρ) }

def ParameterShape.renumber (ρ : Renumbering) (s : ParameterShape) : ParameterShape :=
  { s with type := s.type.map (Ty.renumber ρ) }

def SignatureShape.renumber (ρ : Renumbering) (s : SignatureShape) : SignatureShape where
  parameters := s.parameters.map (ParameterShape.renumber ρ)
  typeParameters := s.typeParameters.map (TypeParameterShape.renumber ρ)
  result := s.result.map (Ty.renumber ρ)

/-- A description with new numbers. -/
def Description.renumber (ρ : Renumbering) (d : Description) : Description where
  type := d.type.map (Ty.renumber ρ)
  defaultValue := d.defaultValue
  signatures := d.signatures.map (SignatureShape.renumber ρ)
  typeParameters := d.typeParameters.map (TypeParameterShape.renumber ρ)
  members := d.members.map ρ.symbol
  extendedTypes := d.extendedTypes.map (Ty.renumber ρ)
  implementedTypes := d.implementedTypes.map (Ty.renumber ρ)

/-- A symbol with new numbers. -/
def Symbol.renumber (ρ : Renumbering) (s : Symbol) : Symbol :=
  { s with description := s.description.map (Description.renumber ρ) }

/-! ## Reports -/

/-- What happened to a module, with new numbers. -/
def ModuleReport.renumber (ρ : Renumbering) (r : ModuleReport) : ModuleReport where
  module := ρ.node r.module
  aliased := r.aliased.map fun p => (ρ.symbol p.1, ρ.node p.2)
  synthesized := r.synthesized.map ρ.node
  skipped := r.skipped.map ρ.symbol
  unresolved := r.unresolved.map ρ.symbol
  dropped := r.dropped.map ρ.symbol
  rounds := r.rounds
  created := r.created.map ρ.node

end DocTree
