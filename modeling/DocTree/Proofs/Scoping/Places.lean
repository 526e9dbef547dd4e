import DocTree.Proofs.Document.Shape
import DocTree.Proofs.Workspace.Sound

/-!
# Places in descriptions

Where a description has a type, and what it is the description of. The same places are found in a document and in what
was read from it.

* `SignatureSlot`, `Slot` : the places for types in a signature and in a description;
* `Slot.value?`, `Slot.type?` : what a document says there, and the type that was read there;
* `specAt?` : the description at the end of a way down through members;
* `Slot.hidden`, `outerNames`, `hiddenAt` : the type parameters in sight of a place, by what they belong to;
* `valueAt?`, `Store.symbolAt?`, `Store.typeAt?` : what is found at the end of a way.
-/

namespace DocTree

namespace Document

/-! ## Slots -/

/-- A place for a type in a signature. -/
inductive SignatureSlot where
  | parameter (j : Nat)
  | result
  | constraint (j : Nat)
  | fallback (j : Nat)

/-- A place for a type in a description, members apart. -/
inductive Slot where
  | type
  | extended (i : Nat)
  | implemented (i : Nat)
  | constraint (i : Nat)
  | fallback (i : Nat)
  | signature (i : Nat) (slot : SignatureSlot)

/-- The constraint and the default of a type parameter, by its place. -/
def boundsAt? (fields : List (String × Value)) (i : Nat) : Option (Option Value × Option Value) :=
  (fieldsOf (Value.lookup "typeParameters" fields))[i]?.map (boundsOf ·.2)

def SignatureSlot.value? (fields : List (String × Value)) : SignatureSlot → Option Value
  | parameter j => (fieldsOf (Value.lookup "parameters" fields))[j]?.map Prod.snd
  | result => Value.lookup "returns" fields
  | constraint j => (boundsAt? fields j).bind Prod.fst
  | fallback j => (boundsAt? fields j).bind Prod.snd

def signatureAt? (fields : List (String × Value)) (i : Nat) : Option Value :=
  (partsOf (Value.lookup "signatures" fields))[i]?

/-- What a document says at a place in a description. -/
def Slot.value? (fields : List (String × Value)) : Slot → Option Value
  | type => Value.lookup "type" fields
  | extended i => (partsOf (Value.lookup "extends" fields))[i]?
  | implemented i => (partsOf (Value.lookup "implements" fields))[i]?
  | constraint i => (boundsAt? fields i).bind Prod.fst
  | fallback i => (boundsAt? fields i).bind Prod.snd
  | signature i slot => (signatureAt? fields i).bind fun v => slot.value? v.fields

/-- The names of the type parameters that a description has in sight of a place: its own and, inside a signature, those
of the signature. -/
def Slot.hidden (fields : List (String × Value)) : Slot → List String
  | signature i _ => ((signatureAt? fields i).map fun v => typeParameterNames v.fields).getD []
      ++ typeParameterNames fields
  | _ => typeParameterNames fields

/-! ## Members -/

/-- The fields of a description. A text is a description that has nothing but a type. -/
def specFields : Value → List (String × Value)
  | .str text => [("type", .str text)]
  | v => v.fields

/-- The description at the end of a way down through members, by their places. -/
def specAt? : Value → List Nat → Option Value
  | spec, [] => some spec
  | spec, i :: path => (membersOf spec)[i]?.bind fun m => specAt? m.2 path

/-- The names of the type parameters of all symbols around the end of a way. -/
def outerNames : Value → List Nat → List String
  | _, [] => []
  | spec, i :: path =>
    ((membersOf spec)[i]?.map fun m => outerNames m.2 path).getD [] ++ typeParameterNames (specFields spec)

/-- The names of all type parameters in sight of a place. -/
def hiddenAt (spec : Value) (path : List Nat) (slot : Slot) : List String :=
  ((specAt? spec path).map fun spec => slot.hidden (specFields spec)).getD [] ++ outerNames spec path

/-- What a document says at a place. -/
def valueAt? (spec : Value) (path : List Nat) (slot : Slot) : Option Value :=
  (specAt? spec path).bind fun spec => slot.value? (specFields spec)

/-! ## What was read -/

def SignatureSlot.type? (shape : SignatureShape) : SignatureSlot → Option Ty
  | parameter j => shape.parameters[j]?.bind (·.type)
  | result => shape.result
  | constraint j => shape.typeParameters[j]?.bind (·.constraint)
  | fallback j => shape.typeParameters[j]?.bind (·.fallback)

def Slot.type? (d : Description) : Slot → Option Ty
  | type => d.type
  | extended i => d.extendedTypes[i]?
  | implemented i => d.implementedTypes[i]?
  | constraint i => d.typeParameters[i]?.bind (·.constraint)
  | fallback i => d.typeParameters[i]?.bind (·.fallback)
  | signature i slot => d.signatures[i]?.bind slot.type?

end Document

namespace Store

/-- The symbol at the end of a way down from a symbol through members, by their places. -/
def symbolAt? (s : Store) : SymbolId → List Nat → Option SymbolId
  | symbol, [] => some symbol
  | symbol, i :: path => (s.membersOf symbol)[i]?.bind (s.symbolAt? · path)

def typeAt? (s : Store) (symbol : SymbolId) (path : List Nat) (slot : Document.Slot) : Option Ty :=
  (s.symbolAt? symbol path).bind fun symbol => (s.symbol symbol).description.bind slot.type?

end Store

end DocTree
