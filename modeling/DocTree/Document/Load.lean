import DocTree.Convert
import DocTree.Document.Describe
import DocTree.Json.Reader

/-!
# Loading documents

A model document holds options, programs with their symbols, and modules with their exports. It is
loaded in this order: options are set; a project is started; the symbols of all programs are
declared, then described, so that every symbol is known when types are read; then each module is
created and its exports are converted in it. Without modules, exports are converted in the project
itself. A symbol marked as opaque is declared and never described.
-/

namespace DocTree.Document

/-- A declared symbol that waits for its description. -/
structure Pending where
  symbol : SymbolId
  kind : Kind
  path : String
  spec : Value

structure DeclaredProgram where
  program : Program
  pending : List Pending

def declareSymbols : List (String × Value) → Program → Load (Program × List Pending)
  | [], program => return (program, [])
  | (name, spec) :: rest, program => do
    let path := "programs." ++ program.name.text ++ ".symbols." ++ name
    let kind ← readKind path spec
    let id ← addSymbol ⟨.str name, kind, some program.name, none⟩
    let (program, pending) ← declareSymbols rest (program.insert (.text name) id)
    return (program, ⟨id, kind, path, spec⟩ :: pending)

def declareProgram (name : String) : Value → Load DeclaredProgram
  | .object fields =>
    match (Value.lookup "symbols" fields).getD (.object []) with
    | .object symbols => do
      let (program, pending) ← declareSymbols symbols (.empty (.str name))
      modify fun w => { w with programs := w.programs.insert (.text name) program }
      return ⟨program, pending⟩
    | _ => refuse ("programs." ++ name) .symbolsNotObject
  | _ => throw .lacksFeature

def declarePrograms : List (String × Value) → Load (List DeclaredProgram)
  | [] => return []
  | (name, spec) :: rest => do
    let program ← declareProgram name spec
    let programs ← declarePrograms rest
    return program :: programs

/-- Whether a symbol is marked as opaque. -/
def isOpaque : Value → Bool
  | .object fields => ((Value.lookup "opaque" fields).map Value.isTruthy).getD false
  | _ => false

def describeSymbols (scope : Scope) : List Pending → Load Unit
  | [] => return ()
  | p :: ps => do
    if !isOpaque p.spec then
      let description ← describe scope p.path p.kind p.spec
      modify fun w =>
        { w with store := w.store.modifySymbol p.symbol fun s =>
            { s with description := some description } }
    describeSymbols scope ps

def describePrograms (project : NodeId) : List DeclaredProgram → Load Unit
  | [] => return ()
  | p :: ps => do
    describeSymbols ⟨project, p.program, []⟩ p.pending
    describePrograms project ps

def programNamed (path name : Value) : Load Program := do
  let programs := (← get).programs
  match name, programs.values with
  | .null, [program] => return program
  | _, _ =>
    match name.key?.bind programs.find? with
    | some program => return program
    | none => throw (.model path (.unknownProgram name))

def exportNamed (path : Value) (program : Program) (name : Value) : Load SymbolId :=
  match name.key? with
  | none => throw .wrongType
  | some key =>
    match program.symbols.find? key with
    | some symbol => return symbol
    | none => throw (.model path (.unknownExport name program.name))

def convertSymbol (scope : NodeId) (symbol : SymbolId) : Load Unit := do
  match (← get).convert scope symbol with
  | (.error e, w) =>
    set w
    throw e
  | (.ok _, w) => set w

def convertNames (scope : NodeId) (path : Value) (program : Program) :
    List Value → Load Unit
  | [] => return ()
  | name :: names => do
    convertSymbol scope (← exportNamed path program name)
    convertNames scope path program names

def convertExports (scope : NodeId) (path : Value) (program : Program)
    (exports : Option Value) : Load Unit := do
  modify (·.activate (some program.name))
  convertNames scope path program (← listed exports)
  modify (·.activate none)

def createModule (program name : Value) : Load NodeId := do
  modify (·.activate (some program))
  let w ← get
  match w.create? w.project .module name none with
  | .error e => throw e
  | .ok (id, w) =>
    match w.announce? w.project id with
    | (.error e, w) =>
      set w
      throw e
    | (.ok (), w) =>
      set (w.activate none)
      return id

def loadModule (path : String) : Value → Load Unit
  | .object fields =>
    match Value.lookup "name" fields with
    | none => refuse path .moduleWithoutName
    | some name => do
      let program ← programNamed (.str path) ((Value.lookup "program" fields).getD .null)
      let id ← createModule program.name name
      convertExports id (.str path) program (Value.lookup "exports" fields)
  | _ => refuse path .moduleWithoutName

def loadModules (source : Value) : Nat → List Value → Load Unit
  | _, [] => return ()
  | i, v :: vs => do
    loadModule (source.text ++ ":modules[" ++ toString i ++ "]") v
    loadModules source (i + 1) vs

def loadOptions : Value → Load Unit
  | .object options => do
    match (← get).setOptions options with
    | (.ok (), w) => set w
    | (.error e, w) =>
      set w
      throw e
  | _ => throw .lacksFeature

def loadPrograms (source : Value) : Value → Load Unit
  | .object programs => do
    let declared ← declarePrograms programs
    describePrograms (← get).project declared
  | _ => throw (.model source .programsNotObject)

/-- Loads the modules of a document, or the exports of a document without modules. -/
def loadContents (source : Value) (fields : List (String × Value)) : Load Unit :=
  match (Value.lookup "modules" fields).getD .null with
  | .null => do
    let program ← programNamed source ((Value.lookup "program" fields).getD .null)
    convertExports (← get).project source program (Value.lookup "exports" fields)
  | modules => do loadModules source 0 (← parts modules)

/-- Loads a document; `source` names it in messages. -/
def load (source : Value) : Value → Load Unit
  | .object fields => do
    loadOptions ((Value.lookup "options" fields).getD (.object []))
    modify (·.startProject ((Value.lookup "name" fields).getD (.str "project")))
    loadPrograms source ((Value.lookup "programs" fields).getD (.object []))
    loadContents source fields
    modify fun w => w.report .info .loading
      ("loaded " ++ (w.store.node w.project).name.display ++ ": " ++ toString w.programs.size
        ++ " program(s), " ++ toString w.index.listed.size ++ " reflection(s)")
  | _ => throw (.model source .notObject)

end DocTree.Document

namespace DocTree.Workspace

/-- Loads a document. After a failure the project, its programs and its bindings are the ones from
before. -/
def load (w : Workspace) (source document : Value) : Except Error Unit × Workspace :=
  match (Document.load source document).run w with
  | .ok _ loaded => (.ok (), loaded)
  | .error e failed =>
    (.error e,
      { failed with
        project := w.project, active := w.active, bindings := w.bindings, programs := w.programs })

def loadText (w : Workspace) (source text : String) : Except Error Unit × Workspace :=
  match Json.read text with
  | .error (.malformed reason) => (.error (.model (.str source) (.invalidJson reason)), w)
  | .error .longNumber => (.error .longNumber, w)
  | .ok document => w.load (.str source) document

end DocTree.Workspace
