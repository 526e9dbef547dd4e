import DocTree.Ty
import DocTree.Value.Display

/-!
# Printing types

The text of a type in the syntax of type expressions, as far as that syntax goes. An inline type
is printed by one word, which depends on whether its declaration has signatures.
-/

namespace DocTree.Ty

/-- The text of a literal. A string is put between double quotes as it is. A whole number is written with all its
digits, although one of more than `Decimal.digitLimit` digits, which no text or document holds, should be refused. -/
def literalText : Value → String
  | .str s => "\"" ++ s ++ "\""
  | .null => "null"
  | .bool b => if b then "true" else "false"
  | v => v.display

def assertion (asserts : Value) : String := if asserts.isTruthy then "asserts " else ""

/-- Whether a type needs parentheses in front of an array suffix. -/
def isCombination : Ty → Bool
  | union _ | intersection _ => true
  | _ => false

mutual

/-- The text of a type, given which declarations are functions. There is none if a name that stands
by itself, or a text of a template, is no string; beside other text any name can be shown. -/
def render (isFunction : NodeId → Bool) : Ty → Option String
  | intrinsic name | unknown name | reference name _ [] _ => name.string?
  | literal value => some (literalText value)
  | absent => some "None"
  | reference name _ (t :: ts) _ => do
    return name.text ++ "<" ++ ", ".intercalate (← renderAll isFunction (t :: ts)) ++ ">"
  | inline declaration => some (if isFunction declaration then "Function" else "Object")
  | array e => do
    let element ← render isFunction e
    return if isCombination e then "(" ++ element ++ ")[]" else element ++ "[]"
  | union ts => do return " | ".intercalate (← renderAll isFunction ts)
  | intersection ts => do return " & ".intercalate (← renderAll isFunction ts)
  | tuple ts => do return "[" ++ ", ".intercalate (← renderAll isFunction ts) ++ "]"
  | namedMember name isOptional e => do
    return name.text ++ (if isOptional.isTruthy then "?" else "") ++ ": " ++ (← render isFunction e)
  | optional e => do return (← render isFunction e) ++ "?"
  | rest e => do return "..." ++ (← render isFunction e)
  | conditional check bound whenTrue whenFalse => do
    return (← render isFunction check) ++ " extends " ++ (← render isFunction bound) ++ " ? "
      ++ (← render isFunction whenTrue) ++ " : " ++ (← render isFunction whenFalse)
  | indexedAccess object index => do
    return (← render isFunction object) ++ "[" ++ (← render isFunction index) ++ "]"
  | inferred name none => some ("infer " ++ name.text)
  | inferred name (some c) => do
    return "infer " ++ name.text ++ " extends " ++ (← render isFunction c)
  | mapped parameter domain body _ => do
    return "\x7b [" ++ parameter.text ++ " in " ++ (← render isFunction domain) ++ "]: "
      ++ (← render isFunction body) ++ " \x7d"
  | predicate name asserts none => some (assertion asserts ++ name.text)
  | predicate name asserts (some t) => do
    return assertion asserts ++ name.text ++ " is " ++ (← render isFunction t)
  | query t => do return "typeof " ++ (← render isFunction t)
  | operator name t => do return name.text ++ " " ++ (← render isFunction t)
  | template head tail => do
    let texts ← renderTail isFunction tail
    return "`" ++ (← head.string?) ++ String.join texts ++ "`"

def renderAll (isFunction : NodeId → Bool) : List Ty → Option (List String)
  | [] => some []
  | t :: ts => do return (← render isFunction t) :: (← renderAll isFunction ts)

def renderTail (isFunction : NodeId → Bool) : List (Ty × Value) → Option (List String)
  | [] => some []
  | (t, text) :: ts => do
    let part := "$\x7b" ++ (← render isFunction t) ++ "\x7d" ++ (← text.string?)
    return part :: (← renderTail isFunction ts)

end

end DocTree.Ty
