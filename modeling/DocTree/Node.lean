import DocTree.Kind
import DocTree.Ty
import DocTree.Value.Display

/-!
# Nodes

A node of the documentation tree has a name, a kind, a parent, and a body that says what else it
holds. Nodes hold each other by number.

Two readings of a node matter. `Node.owned` lists the nodes directly below it, in the order of a
walk through the tree. `Node.parts` lists what a search for undocumented symbols looks at, nodes and
types in the order they are met; types that point back at a declaration from elsewhere
(`extendedBy`, `implementedBy`) are not among them.
-/

namespace DocTree

/-- What modules, namespaces, classes, functions, properties and the like hold. -/
structure DeclarationBody where
  children : List NodeId := []
  type : Option Ty := none
  defaultValue : Value := .null
  typeParameters : List NodeId := []
  signatures : List NodeId := []
  indexSignatures : List NodeId := []
  getSignature : Option NodeId := none
  setSignature : Option NodeId := none
  overwrites : Option Ty := none
  inheritedFrom : Option Ty := none
  implementationOf : Option Ty := none
  extendedTypes : List Ty := []
  extendedBy : List Ty := []
  implementedTypes : List Ty := []
  implementedBy : List Ty := []

structure SignatureBody where
  parameters : List NodeId := []
  typeParameters : List NodeId := []
  type : Option Ty := none
  overwrites : Option Ty := none
  inheritedFrom : Option Ty := none
  implementationOf : Option Ty := none

structure ParameterBody where
  type : Option Ty := none
  defaultValue : Value := .null
  isOptional : Value := .bool false
  isRest : Value := .bool false

structure TypeParameterBody where
  constraint : Option Ty := none
  fallback : Option Ty := none

/-- The variants of nodes. -/
inductive Body where
  | bare
  | project (children : List NodeId)
  | declaration (body : DeclarationBody)
  | signature (body : SignatureBody)
  | parameter (body : ParameterBody)
  | typeParameter (body : TypeParameterBody)
  deriving Inhabited

namespace Body

def variant : Body → String
  | bare => ""
  | project _ => "project"
  | declaration _ => "declaration"
  | signature _ => "signature"
  | parameter _ => "param"
  | typeParameter _ => "typeParam"

def typeName : Body → String
  | bare => "Reflection"
  | project _ => "ProjectReflection"
  | declaration _ => "DeclarationReflection"
  | signature _ => "SignatureReflection"
  | parameter _ => "ParameterReflection"
  | typeParameter _ => "TypeParameterReflection"

/-- Whether a node of this variant can hold children. -/
def isContainer : Body → Bool
  | project _ | declaration _ => true
  | _ => false

/-- The children of a node of this variant. -/
def children : Body → List NodeId
  | project children => children
  | declaration body => body.children
  | _ => []

def mapChildren (f : List NodeId → List NodeId) : Body → Body
  | project children => project (f children)
  | declaration body => declaration { body with children := f body.children }
  | body => body

@[simp] theorem children_mapChildren {f : List NodeId → List NodeId} {body : Body}
    (h : body.isContainer = true) : (body.mapChildren f).children = f body.children := by
  cases body <;> simp_all [isContainer, mapChildren, children]

@[simp] theorem mapChildren_id (body : Body) : (body.mapChildren fun ids => ids) = body := by
  cases body <;> rfl

theorem mapChildren_congr {f g : List NodeId → List NodeId} {body : Body} (same : f body.children = g body.children) :
    body.mapChildren f = body.mapChildren g := by
  cases body with
  | project children => exact congrArg project same
  | declaration body => exact congrArg (fun children => declaration { body with children := children }) same
  | _ => rfl

end Body

/-- A node of the documentation tree. -/
structure Node where
  name : Value
  kind : Kind
  parent : Option NodeId
  body : Body
  deriving Inhabited

/-- What a search looks at. -/
inductive Part where
  | node (id : NodeId)
  | type (t : Ty)

namespace Node

def ofType : Option Ty → List NodeId
  | some (.inline id) => [id]
  | _ => []

def owned (n : Node) : List NodeId :=
  match n.body with
  | .bare | .typeParameter _ => []
  | .project children => children
  | .declaration b =>
    b.typeParameters ++ ofType b.type ++ b.signatures ++ b.indexSignatures
      ++ b.getSignature.toList ++ b.setSignature.toList ++ b.children
  | .signature b => b.typeParameters ++ b.parameters ++ ofType b.type
  | .parameter b => ofType b.type

/-- What a search for undocumented symbols looks at, in order. -/
def parts (n : Node) : List Part :=
  match n.body with
  | .bare => []
  | .project children => children.map .node
  | .declaration b =>
    b.children.map .node ++ b.type.toList.map .type
      ++ (b.typeParameters ++ b.signatures ++ b.indexSignatures ++ b.getSignature.toList
        ++ b.setSignature.toList).map .node
      ++ (b.overwrites.toList ++ b.inheritedFrom.toList ++ b.implementationOf.toList
        ++ b.extendedTypes ++ b.implementedTypes).map .type
  | .signature b =>
    (b.parameters ++ b.typeParameters).map .node
      ++ (b.type.toList ++ b.overwrites.toList ++ b.inheritedFrom.toList
        ++ b.implementationOf.toList).map .type
  | .parameter b => b.type.toList.map .type
  | .typeParameter b => (b.constraint.toList ++ b.fallback.toList).map .type

def successors (n : Node) : List NodeId :=
  n.parts.flatMap fun
    | .node id => [id]
    | .type t => t.inlines

/-- The references that a search finds at the node itself. -/
def links (n : Node) : List Link :=
  n.parts.flatMap fun
    | .node _ => []
    | .type t => t.links

/-- Whether a search can go through the node: no type is absent in its parts. -/
def isComplete (n : Node) : Bool :=
  n.parts.all fun
    | .node _ => true
    | .type t => t.isComplete

def isKind (n : Node) (mask : Kind) : Bool := n.kind.meets mask

def display (n : Node) (id : NodeId) : String :=
  "<" ++ n.body.typeName ++ " #" ++ toString id ++ " " ++ n.kind.label ++ " " ++ n.name.display
    ++ ">"

end Node

end DocTree
