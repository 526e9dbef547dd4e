import DocTree.Error
import DocTree.Node
import DocTree.TypeExpr.Syntax

/-!
# From type expressions to types

Building a type adds the nodes of its inline declarations to its surroundings and asks them what
each name stands for; a `Builder` gives the surroundings. Parts are built before the whole, from
left to right, so that an inline declaration comes behind everything inside it. An object takes one
number for itself and one for each property, a function one for itself, one for its signature and
one for each parameter.
-/

namespace DocTree.TypeExpr

def inlineName : Value := .str "__type"

def propertyNode (parent : NodeId) (name : String) (type : Ty) : Node :=
  ⟨.str name, .property, some parent, .declaration { type := some type }⟩

def parameterNode (parent : NodeId) (name : String) (marks : Marks) (type : Ty) : Node :=
  ⟨.str name, .parameter, some parent,
    .parameter
      { type := some type, isOptional := .bool marks.isOptional, isRest := .bool marks.isRest }⟩

/-- The nodes of an object type whose first one gets the number `id`. -/
def objectNodes (id : NodeId) (members : List (String × Ty)) : List Node :=
  ⟨inlineName, .typeLiteral, none,
      .declaration { children := List.range' (id + 1) members.length }⟩
    :: members.map fun m => propertyNode id m.1 m.2

def functionNodes (id : NodeId) (parameters : List ((String × Marks) × Ty)) (result : Ty) :
    List Node :=
  ⟨inlineName, .typeLiteral, none, .declaration { signatures := [id + 1] }⟩
    :: ⟨inlineName, .callSignature, some id,
        .signature
          { parameters := List.range' (id + 2) parameters.length, type := some result }⟩
    :: parameters.map fun p => parameterNode (id + 1) p.1.1 p.1.2 p.2

/-- The surroundings of a type that is built. -/
structure Builder (m : Type → Type) where
  /-- Adds nodes, which depend on the number that the first of them gets. -/
  add : (NodeId → List Node) → m NodeId
  /-- What a name with type arguments stands for. -/
  bind : String → List Ty → m Ty
  /-- What becomes of a whole number with too many digits. -/
  longNumber : m Ty

variable {m : Type → Type} [Monad m]

/-- Adds the nodes of an inline type. -/
def Builder.inline (b : Builder m) (nodes : NodeId → List Node) : m Ty := do
  return .inline (← b.add nodes)

/-- A query is always of a reference; a name that is bound to anything else is left outside. -/
def queried (path : String) : Ty → Ty
  | t@(.reference ..) => .query t
  | _ => .query (.outside path)

mutual

/-- The type that an expression denotes. -/
def build (b : Builder m) : Expr → m Ty
  | .name path args => do
    let args ← buildAll b args
    if args.isEmpty && intrinsicNames.contains path then return .intrinsic (.str path)
    else b.bind path args
  | .literal value => return .literal value
  | .longNumber => b.longNumber
  | .query path => return queried path (← b.bind path [])
  | .operator word target => return .operator (.str word) (← build b target)
  | .array element => return .array (← build b element)
  | .union parts => return .union (← buildAll b parts)
  | .intersection parts => return .intersection (← buildAll b parts)
  | .tuple elements => return .tuple (← buildAll b elements)
  | .object members => do
    let members ← buildMembers b members
    b.inline fun id => objectNodes id members
  | .function parameters result => do
    let parameters ← buildParameters b parameters
    let result ← build b result
    b.inline fun id => functionNodes id parameters result

def buildAll (b : Builder m) : List Expr → m (List Ty)
  | [] => return []
  | e :: es => do
    let t ← build b e
    let ts ← buildAll b es
    return t :: ts

def buildMembers (b : Builder m) : List (String × Expr) → m (List (String × Ty))
  | [] => return []
  | (name, e) :: es => do
    let t ← build b e
    let ts ← buildMembers b es
    return (name, t) :: ts

def buildParameters (b : Builder m) :
    List ((String × Marks) × Expr) → m (List ((String × Marks) × Ty))
  | [] => return []
  | (name, e) :: es => do
    let t ← build b e
    let ts ← buildParameters b es
    return (name, t) :: ts

end

/-- Building with an array for the nodes. A failure keeps the nodes added before it. -/
abbrev Building := EStateM Error (Array Node)

def outsideBuilder : Builder Building where
  add nodes := modifyGet fun (all : Array Node) => (all.size, all ++ nodes all.size)
  bind name args := return .reference (.str name) .external args .null
  longNumber := throw .longNumber

end DocTree.TypeExpr
