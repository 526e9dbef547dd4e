import DocTree.Report
import DocTree.Ty.Printer

/-!
# Output

The tree, types and reports as JSON values. A reference is written with the number of the node that
it leads to at the moment, or null. Fields that hold nothing are left out. `Store.canWrite` says
whether nothing is in the way: a type that is absent in a list, or a kind that is none.

A node is written inside the node that holds it, an inline declaration inside its type; nodes nest
less deeply than there are nodes.
-/

namespace DocTree

namespace Ty

def optionalField (key : String) (v : Option Value) : List (String × Value) :=
  v.toList.map (key, ·)

def unlessEmpty (v : Value) : Option Value := if v.isTruthy then some v else none

/-- A field with the form of a type, left out if there is no type. -/
def present (key : String) (t : Ty) (form : Value) : List (String × Value) :=
  if t.isAbsent then [] else [(key, form)]

section Output

variable (target : Link → Option NodeId) (declared : NodeId → Value)

mutual

/-- The form of a type, by where links lead and by the forms of inline declarations. -/
def toValue : Ty → Value
  | intrinsic name => .object [("type", .str "intrinsic"), ("name", name)]
  | literal value => .object [("type", .str "literal"), ("value", value)]
  | unknown name => .object [("type", .str "unknown"), ("name", name)]
  | absent => .null
  | reference name link args package =>
    .object ([("type", .str "reference"), ("name", name),
        ("target", ((target link).map fun id => .int id).getD .null)]
      ++ optionalField "package" (unlessEmpty package)
      ++ (if args.isEmpty then [] else [("typeArguments", .list (toValues args))]))
  | inline declaration =>
    .object [("type", .str "reflection"), ("declaration", declared declaration)]
  | array e => .object ([("type", .str "array")] ++ present "elementType" e (toValue e))
  | union ts => .object [("type", .str "union"), ("types", .list (toValues ts))]
  | intersection ts => .object [("type", .str "intersection"), ("types", .list (toValues ts))]
  | tuple ts => .object [("type", .str "tuple"), ("elements", .list (toValues ts))]
  | namedMember name isOptional e =>
    .object ([("type", .str "namedTupleMember"), ("name", name), ("isOptional", isOptional)]
      ++ present "element" e (toValue e))
  | optional e => .object ([("type", .str "optional")] ++ present "elementType" e (toValue e))
  | rest e => .object ([("type", .str "rest")] ++ present "elementType" e (toValue e))
  | conditional check bound whenTrue whenFalse =>
    .object ([("type", .str "conditional")] ++ present "checkType" check (toValue check)
      ++ present "extendsType" bound (toValue bound)
      ++ present "trueType" whenTrue (toValue whenTrue)
      ++ present "falseType" whenFalse (toValue whenFalse))
  | indexedAccess object index =>
    .object ([("type", .str "indexedAccess")] ++ present "objectType" object (toValue object)
      ++ present "indexType" index (toValue index))
  | inferred name none => .object [("type", .str "inferred"), ("name", name)]
  | inferred name (some c) =>
    .object ([("type", .str "inferred"), ("name", name)] ++ present "constraint" c (toValue c))
  | mapped parameter domain body none =>
    .object ([("type", .str "mapped"), ("parameter", parameter)]
      ++ present "parameterType" domain (toValue domain)
      ++ present "templateType" body (toValue body))
  | mapped parameter domain body (some newName) =>
    .object ([("type", .str "mapped"), ("parameter", parameter)]
      ++ present "parameterType" domain (toValue domain)
      ++ present "templateType" body (toValue body)
      ++ present "nameType" newName (toValue newName))
  | predicate name asserts none =>
    .object [("type", .str "predicate"), ("name", name), ("asserts", asserts)]
  | predicate name asserts (some t) =>
    .object ([("type", .str "predicate"), ("name", name), ("asserts", asserts)]
      ++ present "targetType" t (toValue t))
  | query t => .object ([("type", .str "query")] ++ present "queryType" t (toValue t))
  | operator name t =>
    .object ([("type", .str "typeOperator"), ("operator", name)]
      ++ present "target" t (toValue t))
  | template head tail =>
    .object ([("type", .str "templateLiteral"), ("head", head)]
      ++ (if tail.isEmpty then [] else [("tail", .list (toTail tail))]))

def toValues : List Ty → List Value
  | [] => []
  | t :: ts => toValue t :: toValues ts

def toTail : List (Ty × Value) → List Value
  | [] => []
  | (t, text) :: ts => .list [toValue t, text] :: toTail ts

end

end Output

end Ty

namespace Store

open Ty (optionalField unlessEmpty)

def listField (key : String) (items : List Value) : List (String × Value) :=
  if items.isEmpty then [] else [(key, .list items)]

def unlessNull : Value → Option Value
  | .null => none
  | v => some v

def headFields (s : Store) (id : NodeId) : List (String × Value) :=
  [("id", .int id), ("name", (s.node id).name), ("variant", s.variant id),
    ("kind", .str (s.node id).kind.label)]

/-- The fields that depend on the variant, by the forms of types and of other nodes. -/
def bodyFields (type : Ty → Value) (node : NodeId → Value) : Body → List (String × Value)
  | .bare | .project _ => []
  | .declaration b =>
    optionalField "type" (b.type.map type)
      ++ optionalField "defaultValue" (unlessNull b.defaultValue)
      ++ listField "typeParameters" (b.typeParameters.map node)
      ++ listField "signatures" (b.signatures.map node)
      ++ listField "indexSignatures" (b.indexSignatures.map node)
      ++ listField "getSignature" (b.getSignature.toList.map node)
      ++ listField "setSignature" (b.setSignature.toList.map node)
      ++ listField "extendedTypes" (b.extendedTypes.map type)
      ++ listField "implementedTypes" (b.implementedTypes.map type)
  | .signature b =>
    listField "typeParameters" (b.typeParameters.map node)
      ++ listField "parameters" (b.parameters.map node)
      ++ optionalField "type" (b.type.map type)
  | .parameter b =>
    optionalField "type" (b.type.map type)
      ++ optionalField "isOptional" (unlessEmpty b.isOptional)
      ++ optionalField "isRest" (unlessEmpty b.isRest)
  | .typeParameter b =>
    optionalField "type" (b.constraint.map type) ++ optionalField "default" (b.fallback.map type)

def nodeValueDepth (s : Store) : Nat → NodeId → Value
  | 0, _ => .null
  | depth + 1, id =>
    let form := s.nodeValueDepth depth
    .object (s.headFields id ++ bodyFields (Ty.toValue s.resolve form) form (s.node id).body
      ++ listField "children" ((s.shownChildren id).map form))

/-- The form of a node. -/
def nodeValue (s : Store) (id : NodeId) : Value := s.nodeValueDepth (s.nodes.size + 1) id

/-- The form of a type. -/
def typeValue (s : Store) (t : Ty) : Value := t.toValue s.resolve s.nodeValue

def writtenTypes : Body → List Ty
  | .bare | .project _ => []
  | .declaration b => b.type.toList ++ b.extendedTypes ++ b.implementedTypes
  | .signature b => b.type.toList
  | .parameter b => b.type.toList
  | .typeParameter b => b.constraint.toList ++ b.fallback.toList

def writtenNodes : Body → List NodeId
  | .declaration b =>
    b.typeParameters ++ b.signatures ++ b.indexSignatures ++ b.getSignature.toList
      ++ b.setSignature.toList
  | .signature b => b.typeParameters ++ b.parameters
  | _ => []

def canWriteDepth (s : Store) : Nat → NodeId → Bool
  | 0, _ => true
  | depth + 1, id =>
    let body := (s.node id).body
    let types := writtenTypes body
    s.strays.hasLabel id && types.all Ty.isWritable
      && (writtenNodes body ++ types.flatMap Ty.inlines ++ s.shownChildren id).all
        (s.canWriteDepth depth)

/-- Whether a node can be written. -/
def canWrite (s : Store) (id : NodeId) : Bool := s.canWriteDepth (s.nodes.size + 1) id

def canWriteType (s : Store) (t : Ty) : Bool := t.isWritable && t.inlines.all s.canWrite

def typeText (s : Store) (t : Ty) : Option String := t.render s.isFunction

end Store

namespace Report

def symbolName (s : Store) (id : SymbolId) : Value := (s.symbol id).name

def moduleValue (s : Store) (m : ModuleReport) : Except Error Value := do
  let aliased ← m.aliased.mapM fun (symbol, target) => do
    return .object [("symbol", symbolName s symbol), ("target", .int target),
      ("targetName", ← s.fullName "." target)]
  let synthesized ← m.synthesized.mapM fun id => do
    return .object [("id", .int id), ("name", ← s.fullName "." id),
      ("kind", .str (s.node id).kind.label)]
  return .object
    [("module", (s.node m.module).name), ("rounds", .int m.rounds),
     ("aliased", .list aliased), ("synthesized", .list synthesized),
     ("skippedDefaults", .list (m.skipped.map (symbolName s))),
     ("unresolved", .list (m.unresolved.map (symbolName s))),
     ("dropped", .list (m.dropped.map (symbolName s))),
     ("internalNamespace", (m.created.map fun id => (s.node id).name).getD .null)]

/-- The form of a report. Full names need names that are strings. -/
def toValue (r : Report) (s : Store) : Except Error Value := do
  let modules ← r.mapM (moduleValue s)
  return .object [("aliased", .int r.aliasedCount), ("synthesized", .int r.synthesizedCount),
    ("modules", .list modules)]

end Report

end DocTree
