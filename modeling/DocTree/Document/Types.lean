import DocTree.Text.Part
import DocTree.TypeExpr.Build
import DocTree.TypeExpr.Grammar
import DocTree.Workspace

/-!
# Types in documents

A document writes types as type expressions. What a name in one stands for is decided by the
`Scope` it is in: a type parameter in sight hides the symbols whose dotted name begins with it, and
a name that is no symbol of the program is left outside of the documentation.
-/

namespace DocTree.Document

/-- Reading a document changes the workspace; a failure keeps the changes made before it. -/
abbrev Load := EStateM Error Workspace

/-- What decides on the meaning of names. -/
structure Scope where
  project : NodeId
  program : Program
  /-- The names of the type parameters in sight. -/
  hidden : List String

namespace Scope

def hide (s : Scope) (names : List String) : Scope := { s with hidden := names ++ s.hidden }

def headOf (name : String) : String := (Text.parts '.' name).headD ""

def link (s : Scope) (name : String) : Link :=
  if s.hidden.contains (headOf name) then .external
  else
    match s.program.symbols.find? (.text name) with
    | some symbol => .symbol s.project symbol
    | none => .external

def builder (s : Scope) : TypeExpr.Builder Load where
  add nodes := modifyGet fun w =>
    let (id, store) := w.store.addNodes nodes
    (id, { w with store := store })
  bind name args := return .reference (.str name) (s.link name) args .null
  longNumber := throw .longNumber

end Scope

def refuse (path : String) (fault : ModelFault) : Load α := throw (.model (.str path) fault)

def parts (v : Value) : Load (List Value) :=
  match v.parts? with
  | some parts => return parts
  | none => throw .wrongType

def readType (scope : Scope) (path : String) : Value → Load Ty
  | .str text =>
    match TypeExpr.parse text with
    | .ok e => TypeExpr.build scope.builder e
    | .error position => do
      modify fun w => w.report .debug .typeExpressions
        ("cannot parse type expression " ++ Text.quoted text ++ " at " ++ toString position)
      throw (.typeSyntax path text position)
  | v => refuse path (.typeNotString v)

def readType? (scope : Scope) (path : String) : Option Value → Load (Option Ty)
  | none | some .null => return none
  | some v => return some (← readType scope path v)

def readTypes (scope : Scope) (path : String) : List Value → Load (List Ty)
  | [] => return []
  | v :: vs => do
    let t ← readType scope path v
    let ts ← readTypes scope path vs
    return t :: ts

end DocTree.Document
