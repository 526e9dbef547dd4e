import DocTree.Workspace

/-!
# Conversion

Converting a symbol creates a declaration in a scope and fills it with what the symbol's description
says: type parameters, signatures with their own type parameters and parameters, types. Its members
are then converted in the scope of the new declaration.

A symbol is converted at most once: a symbol that has a declaration is not converted again. As each
symbol is bound before its members are looked at, members of members nest at most as deep as there
are symbols. Only the first step can fail: a program has to be active, the scope has to be able to
hold children, and creations have to find their listeners.
-/

namespace DocTree.Workspace

def addPart (w : Workspace) (n : Node) : NodeId × Workspace :=
  let (id, store) := w.store.addNode n
  (id, { w with store := store }.list id)

def typeParameterNode (parent : NodeId) (shape : TypeParameterShape) : Node :=
  ⟨shape.name, .typeParameter, some parent, .typeParameter ⟨shape.constraint, shape.fallback⟩⟩

def parameterNode (parent : NodeId) (shape : ParameterShape) : Node :=
  ⟨shape.name, .parameter, some parent,
    .parameter ⟨shape.type, shape.defaultValue, shape.isOptional, shape.isRest⟩⟩

def addParts (w : Workspace) : List Node → List NodeId × Workspace
  | [] => ([], w)
  | n :: ns =>
    let (id, w) := w.addPart n
    let (ids, w) := w.addParts ns
    (id :: ids, w)

def signatureHead (owner : Node) : Kind × Value :=
  if owner.isKind .classKind then (.constructorSignature, .str ("new " ++ owner.name.text))
  else (.callSignature, owner.name)

def addSignature (w : Workspace) (parent : NodeId) (shape : SignatureShape) : NodeId × Workspace :=
  let (kind, name) := signatureHead (w.store.node parent)
  let (id, store) := w.store.addNode ⟨name, kind, some parent, .signature { type := shape.result }⟩
  let (typeParameters, w) :=
    { w with store := store }.addParts (shape.typeParameters.map (typeParameterNode id))
  let (parameters, w) := w.addParts (shape.parameters.map (parameterNode id))
  let store := w.store.modifyBody id fun _ =>
    .signature { type := shape.result, typeParameters := typeParameters, parameters := parameters }
  (id, { w with store := store }.list id)

def addSignatures (w : Workspace) (parent : NodeId) :
    List SignatureShape → List NodeId × Workspace
  | [] => ([], w)
  | shape :: shapes =>
    let (id, w) := w.addSignature parent shape
    let (ids, w) := w.addSignatures parent shapes
    (id :: ids, w)

/-- What a declaration holds by its description, apart from members. -/
def describedBody (d : Description) (typeParameters signatures : List NodeId) : Body → Body
  | .declaration b => .declaration
      { b with
        type := d.type
        defaultValue := d.defaultValue
        typeParameters := typeParameters
        signatures := signatures
        extendedTypes := d.extendedTypes
        implementedTypes := d.implementedTypes }
  | b => b

/-- Fills a declaration by a description. -/
def populate (w : Workspace) (id : NodeId) (d : Description) : Workspace :=
  let (typeParameters, w) := w.addParts (d.typeParameters.map (typeParameterNode id))
  let (signatures, w) := w.addSignatures id d.signatures
  { w with store := w.store.modifyBody id (describedBody d typeParameters signatures) }

def declarationOf? (w : Workspace) (symbol : SymbolId) : Option NodeId :=
  (w.nodeOf? symbol).filter fun id =>
    match (w.store.node id).body with
    | .declaration _ => true
    | _ => false

def displayActive (w : Workspace) : String :=
  let name := w.active.getD .null
  ((name.key?.bind w.programs.find?).getD (.empty name)).display

/-- Takes it down in the log if a symbol of another program than the active one is converted. -/
def reportForeign (w : Workspace) (symbol : Symbol) : Workspace :=
  if symbol.program.any fun program => !w.active.any program.same then
    w.report .debug .conversion (symbol.display ++ " converted while " ++ w.displayActive
      ++ " is active")
  else w

def declare (w : Workspace) (scope : NodeId) (symbol : SymbolId) (d : Description) :
    NodeId × Workspace :=
  let s := w.store.symbol symbol
  let (id, w) := (w.reportForeign s).create scope s.kind s.name (some symbol)
  (id, w.populate id d)

/-- Converts a symbol in a scope that can hold children, members at most `depth` levels down. -/
def convertIn : Nat → Workspace → NodeId → SymbolId → Option NodeId × Workspace
  | 0, w, _, _ => (none, w)
  | depth + 1, w, scope, symbol =>
    match w.declarationOf? symbol with
    | some id => (some id, w)
    | none =>
      let s := w.store.symbol symbol
      match s.description with
      | none =>
        (none, w.report .debug .conversion (s.display ++ " has no declaration, skipping"))
      | some d =>
        let (id, w) := w.declare scope symbol d
        let w := w.announce scope id
        (some id, d.members.foldl (fun w member => (convertIn depth w id member).2) w)

def wouldCreate (w : Workspace) (symbol : SymbolId) : Bool :=
  (w.declarationOf? symbol).isNone && (w.store.symbol symbol).description.isSome

def declareUnheard (w : Workspace) (scope : NodeId) (symbol : SymbolId) : Workspace :=
  match (w.store.symbol symbol).description with
  | none => w
  | some d => (w.declare scope symbol d).2

/-- Converts a symbol in a scope: its declaration, new or not, or nothing if it cannot be described.
A failure to announce a declaration comes when there is one. -/
def convert (w : Workspace) (scope : NodeId) (symbol : SymbolId) :
    Except Error (Option NodeId) × Workspace :=
  if w.active.isNone then (.error .noActiveProgram, w)
  else if w.wouldCreate symbol && !w.store.isContainer scope then
    let s := w.store.symbol symbol
    (.error (w.noContainer scope s.kind s.name), w)
  else if w.wouldCreate symbol && !w.canAnnounce then
    (.error .wrongType, w.declareUnheard scope symbol)
  else
    let (id?, w) := w.convertIn (w.store.symbols.size + 1) scope symbol
    (.ok id?, w)

end DocTree.Workspace
