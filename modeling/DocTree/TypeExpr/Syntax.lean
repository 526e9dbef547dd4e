import DocTree.Value

/-!
# Type expressions

The syntax tree of a type expression. Parentheses leave no trace in it, and a union or intersection
has at least two parts.
-/

namespace DocTree.TypeExpr

/-- The marks on the name of a parameter. -/
structure Marks where
  isOptional : Bool
  isRest : Bool
  deriving DecidableEq, Repr

/-- A type expression. -/
inductive Expr where
  /-- A dotted name with type arguments. -/
  | name (path : String) (args : List Expr)
  | literal (value : Value)
  /-- A whole number with more digits than whole numbers are read from. -/
  | longNumber
  /-- The type of a named value. -/
  | query (path : String)
  | operator (word : String) (target : Expr)
  | array (element : Expr)
  | union (parts : List Expr)
  | intersection (parts : List Expr)
  | tuple (elements : List Expr)
  | object (members : List (String × Expr))
  | function (parameters : List ((String × Marks) × Expr)) (result : Expr)
  deriving Inhabited

def intrinsicNames : List String :=
  ["any", "unknown", "never", "void", "undefined", "null", "object", "string", "number", "boolean",
   "symbol", "bigint", "this"]

end DocTree.TypeExpr
