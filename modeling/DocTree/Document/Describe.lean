import DocTree.Document.Types

/-!
# Descriptions in documents

How a document describes symbols: their kind, type parameters, types, signatures and members. The
type parameters of a symbol, a signature or a member are in sight in everything that belongs to it,
and nowhere else.

A member is described like a symbol, or by its type alone; the members of an enumeration are just
named.
-/

namespace DocTree.Document

structure MarkedName where
  name : String
  isOptional : Bool
  isRest : Bool
  deriving Repr, DecidableEq

def MarkedName.ofChars (cs : List Char) : MarkedName :=
  let (isRest, cs) :=
    match cs with
    | '.' :: '.' :: '.' :: rest => (true, rest)
    | _ => (false, cs)
  if cs.getLast? = some '?' then ⟨String.ofList cs.dropLast, true, isRest⟩
  else ⟨String.ofList cs, false, isRest⟩

/-- Reads the marks off a name. -/
def MarkedName.ofString (s : String) : MarkedName := .ofChars s.toList

def readTypeParameter (scope : Scope) (path name : String) :
    Value → Load TypeParameterShape
  | .object fields => do
    let constraint ← readType? scope path (Value.lookup "constraint" fields)
    let fallback ← readType? scope path (Value.lookup "default" fields)
    return ⟨.str name, constraint, fallback⟩
  | v => return ⟨.str name, ← readType? scope path (some v), none⟩

def readTypeParameterList (scope : Scope) (path : String) :
    List (String × Value) → Load (List TypeParameterShape)
  | [] => return []
  | (name, v) :: rest => do
    let shape ← readTypeParameter scope (path ++ ".typeParameters." ++ name) name v
    let shapes ← readTypeParameterList scope path rest
    return shape :: shapes

def readTypeParameters (scope : Scope) (path : String) :
    Option Value → Load (List TypeParameterShape)
  | none => return []
  | some v =>
    if !v.isTruthy then return []
    else
      match v with
      | .object fields => readTypeParameterList (scope.hide (fields.map Prod.fst)) path fields
      | _ => refuse path .typeParametersNotObject

def Scope.within (scope : Scope) (shapes : List TypeParameterShape) : Scope :=
  scope.hide (shapes.map (·.name.text))

def readParameterList (scope : Scope) (path : String) :
    List (String × Value) → Load (List ParameterShape)
  | [] => return []
  | (raw, v) :: rest => do
    let marked := MarkedName.ofString raw
    let type ← readType scope (path ++ ".parameters." ++ raw) v
    let shapes ← readParameterList scope path rest
    let shape : ParameterShape :=
      { name := .str marked.name
        type := some type
        isOptional := .bool marked.isOptional
        isRest := .bool marked.isRest }
    return shape :: shapes

def readParameters (scope : Scope) (path : String) : Option Value → Load (List ParameterShape)
  | none => return []
  | some v =>
    if !v.isTruthy then return []
    else
      match v with
      | .object fields => readParameterList scope path fields
      | _ => throw .lacksFeature

def readSignature (scope : Scope) (path : String) : Value → Load SignatureShape
  | .object fields => do
    let typeParameters ← readTypeParameters scope path (Value.lookup "typeParameters" fields)
    let scope := scope.within typeParameters
    let parameters ← readParameters scope path (Value.lookup "parameters" fields)
    let result ← readType? scope (path ++ ".returns") (Value.lookup "returns" fields)
    return ⟨parameters, typeParameters, result⟩
  | _ => refuse path .signatureNotObject

def readSignatures (scope : Scope) (path : String) : Nat → List Value → Load (List SignatureShape)
  | _, [] => return []
  | i, v :: vs => do
    let shape ← readSignature scope (path ++ ".signatures[" ++ toString i ++ "]") v
    let shapes ← readSignatures scope path (i + 1) vs
    return shape :: shapes

def readKind (path : String) : Value → Load Kind
  | .object fields =>
    match (Value.lookup "kind" fields).getD (.str "variable") with
    | .str label =>
      match Kind.ofLabel? label with
      | some kind => return kind
      | none => refuse path (.unknownKind label)
    | _ => throw .lacksFeature
  | _ => refuse path .symbolNotObject

def addSymbol (s : Symbol) : Load SymbolId :=
  modifyGet fun w =>
    let (id, store) := w.store.addSymbol s
    (id, { w with store := store })

def nameMembers (scope : Scope) : List Value → Load (List SymbolId)
  | [] => return []
  | name :: names => do
    let id ← addSymbol ⟨name, .enumMember, some scope.program.name, some {}⟩
    let ids ← nameMembers scope names
    return id :: ids

/-- The parts of a field that lists things; without the field there are none. -/
def listed (v : Option Value) : Load (List Value) := parts (v.getD (.list []))

mutual

/-- The description of a symbol of a given kind. -/
def describe (scope : Scope) (path : String) (kind : Kind) : Value → Load Description
  | .object fields => do
    let typeParameters ← readTypeParameters scope path (Value.lookup "typeParameters" fields)
    let scope := scope.within typeParameters
    let type ← readType? scope (path ++ ".type") (Value.lookup "type" fields)
    let extended ← readTypes scope (path ++ ".extends") (← listed (Value.lookup "extends" fields))
    let implemented ←
      readTypes scope (path ++ ".implements") (← listed (Value.lookup "implements" fields))
    let signatures ← readSignatures scope path 0 (← listed (Value.lookup "signatures" fields))
    let members ← membersAmong scope (path ++ ".members") kind fields
    return {
      type := type
      defaultValue := (Value.lookup "value" fields).getD .null
      signatures := signatures
      typeParameters := typeParameters
      members := members
      extendedTypes := extended
      implementedTypes := implemented }
  | _ => throw .lacksFeature

def membersAmong (scope : Scope) (path : String) (kind : Kind) :
    List (String × Value) → Load (List SymbolId)
  | [] => return []
  | (key, v) :: rest =>
    if key = "members" then members scope path kind v else membersAmong scope path kind rest

def members (scope : Scope) (path : String) (kind : Kind) : Value → Load (List SymbolId)
  | .null => return []
  | .object fields =>
    if kind.meets .enumeration then nameMembers scope (fields.map fun f => .str f.1)
    else memberList scope path fields
  | v => do
    if kind.meets .enumeration then nameMembers scope (← parts v)
    else refuse path .membersNotObject

def memberList (scope : Scope) (path : String) : List (String × Value) → Load (List SymbolId)
  | [] => return []
  | (raw, spec) :: rest => do
    let name := (MarkedName.ofString raw).name
    let path' := path ++ "." ++ raw
    let id ←
      match spec with
      | .str text => do
        let type ← readType scope path' (.str text)
        addSymbol ⟨.str name, .property, some scope.program.name, some { type := some type }⟩
      | _ => do
        let kind ← readKind path' spec
        let description ← describe scope path' kind spec
        addSymbol ⟨.str name, kind, some scope.program.name, some description⟩
    let ids ← memberList scope path rest
    return id :: ids

end

end DocTree.Document
