import DocTree.Store

/-!
# Fields

A node is changed field by field. A field is of one of five sorts, by what it holds: a type, types,
a node, nodes, or a plain value. A variant that does not have a field is left as it is.

* `Store.assign` changes a field of a node; what has no place there goes to the strays.
-/

namespace DocTree

inductive TypeField where
  | type
  | fallback
  | overwrites
  | inheritedFrom
  | implementationOf

inductive TypesField where
  | extendedTypes
  | extendedBy
  | implementedTypes
  | implementedBy

inductive NodeField where
  | getSignature
  | setSignature

inductive NodesField where
  | typeParameters
  | signatures
  | indexSignatures
  | parameters
  | children

inductive PlainField where
  | name
  | kind
  | parent
  | variant
  | defaultValue
  | isOptional
  | isRest

/-- A field with what it is to hold. -/
inductive Assignment where
  | type (field : TypeField) (t : Option Ty)
  | types (field : TypesField) (ts : List Ty)
  | node (field : NodeField) (id : Option NodeId)
  | nodes (field : NodesField) (ids : List NodeId)
  | plain (field : PlainField) (v : Value)

def DeclarationBody.assign (b : DeclarationBody) : Assignment → DeclarationBody
  | .type .type t => { b with type := t }
  | .type .overwrites t => { b with overwrites := t }
  | .type .inheritedFrom t => { b with inheritedFrom := t }
  | .type .implementationOf t => { b with implementationOf := t }
  | .types .extendedTypes ts => { b with extendedTypes := ts }
  | .types .extendedBy ts => { b with extendedBy := ts }
  | .types .implementedTypes ts => { b with implementedTypes := ts }
  | .types .implementedBy ts => { b with implementedBy := ts }
  | .node .getSignature id => { b with getSignature := id }
  | .node .setSignature id => { b with setSignature := id }
  | .nodes .typeParameters ids => { b with typeParameters := ids }
  | .nodes .signatures ids => { b with signatures := ids }
  | .nodes .indexSignatures ids => { b with indexSignatures := ids }
  | .nodes .children ids => { b with children := ids }
  | .plain .defaultValue v => { b with defaultValue := v }
  | _ => b

def SignatureBody.assign (b : SignatureBody) : Assignment → SignatureBody
  | .type .type t => { b with type := t }
  | .type .overwrites t => { b with overwrites := t }
  | .type .inheritedFrom t => { b with inheritedFrom := t }
  | .type .implementationOf t => { b with implementationOf := t }
  | .nodes .parameters ids => { b with parameters := ids }
  | .nodes .typeParameters ids => { b with typeParameters := ids }
  | _ => b

def ParameterBody.assign (b : ParameterBody) : Assignment → ParameterBody
  | .type .type t => { b with type := t }
  | .plain .defaultValue v => { b with defaultValue := v }
  | .plain .isOptional v => { b with isOptional := v }
  | .plain .isRest v => { b with isRest := v }
  | _ => b

def TypeParameterBody.assign (b : TypeParameterBody) : Assignment → TypeParameterBody
  | .type .type t => { b with constraint := t }
  | .type .fallback t => { b with fallback := t }
  | _ => b

/-- Changes a field that a variant has. -/
def Body.assign (a : Assignment) : Body → Body
  | .bare => .bare
  | .project children =>
    match a with
    | .nodes .children ids => .project ids
    | _ => .project children
  | .declaration b => .declaration (b.assign a)
  | .signature b => .signature (b.assign a)
  | .parameter b => .parameter (b.assign a)
  | .typeParameter b => .typeParameter (b.assign a)

namespace Store

def modifyStrays (s : Store) (f : Strays → Strays) : Store := { s with strays := f s.strays }

def assignKind (s : Store) (id : NodeId) (kind : Value) : Store :=
  let s := s.modifyStrays (·.giveKind id kind)
  match kind with
  | .int n => s.modifyNode id fun node => { node with kind := .ofInt n }
  | .bool b => s.modifyNode id fun node => { node with kind := .ofInt (if b then 1 else 0) }
  | _ => s

def assignParent (s : Store) (id : NodeId) (parent : Value) : Store :=
  let s := s.modifyNode id fun node => { node with parent := none }
  match parent with
  | .null => s.modifyStrays (·.freeParent id)
  | _ => s.modifyStrays (·.giveParent id)

def assign (s : Store) (id : NodeId) : Assignment → Store
  | .plain .name v => s.modifyNode id fun node => { node with name := v }
  | .plain .kind v => s.assignKind id v
  | .plain .parent v => s.assignParent id v
  | .plain .variant v => s.modifyStrays (·.giveVariant id v)
  | .nodes .children ids =>
    if s.isContainer id then s.modifyBody id (·.mapChildren fun _ => ids)
    else s.modifyStrays (·.giveChildren id ids)
  | a => s.modifyBody id (·.assign a)

end Store

end DocTree
