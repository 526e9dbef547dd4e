import DocTree.Convert
import DocTree.Missing
import DocTree.Report

/-!
# Resolution

A resolution pass goes through the modules of a project, or through the project itself if it has
none. For each undocumented symbol of a module it does one of these:

* a default export is left alone;
* if the project knows a node of the symbol's name, the symbol is bound to it, provided that a
  module holds the node directly; otherwise it is dropped;
* if nothing may be created, the symbol stays unresolved;
* otherwise it is converted in a namespace of the module that is created for this purpose.

New declarations may refer to more undocumented symbols, so the namespace is searched again until
every symbol found was tried. No symbol is tried twice for a module, which bounds the rounds by the
number of symbols. A namespace that stays empty is removed again.
-/

namespace DocTree

/-- How a pass resolves symbols. -/
structure Policy where
  /-- The name of the namespaces it creates. -/
  namespaceName : Value
  /-- Whether it binds symbols to existing nodes only. -/
  linkOnly : Bool

/-- A module under resolution. -/
structure Job where
  module : NodeId
  /-- All modules of the pass. -/
  modules : List NodeId
  /-- The program that the module comes from, if known. -/
  program : Option Value
  policy : Policy

/-- How far the resolution of a module has come. -/
structure Progress where
  workspace : Workspace
  report : ModuleReport
  /-- The namespace created for the module. -/
  internal : Option NodeId

namespace Job

/-- Steps in the resolution of a module. One that fails keeps what was done before. -/
abbrev Step := EStateM Error Progress

def onWorkspace (f : Workspace → Workspace) : Step Unit :=
  modify fun p => { p with workspace := f p.workspace }

def take : Except Error α × Workspace → Step α
  | (.ok a, w) => do
    onWorkspace fun _ => w
    return a
  | (.error e, w) => do
    onWorkspace fun _ => w
    throw e

def onReport (f : ModuleReport → ModuleReport) : Step Unit :=
  modify fun p => { p with report := f p.report }

def log (message : Workspace → String) : Step Unit :=
  onWorkspace fun w => w.report .debug .resolution (message w)

def holds (s : Store) (module id : NodeId) : Bool :=
  (s.childrenOfKind module (s.node id).kind).contains id

/-- Whether a module can be asked for the children of a node's kind: it has to be able to hold any,
and if it does, their kinds and the one asked for have to have flags. -/
def inquire (s : Store) (id module : NodeId) : Except Error Unit :=
  if !s.isContainer module then .error .lacksFeature
  else if (s.children module).isEmpty || s.haveFlags (id :: s.children module) then .ok ()
  else .error .wrongType

def ownerAmong (s : Store) (id : NodeId) : List NodeId → Except Error (Option NodeId)
  | [] => .ok none
  | module :: modules => do
    inquire s id module
    if holds s module id then return some module else ownerAmong s id modules

def owner? (job : Job) (s : Store) (id : NodeId) : Except Error (Option NodeId) :=
  ownerAmong s id job.modules

def nodeNamed (w : Workspace) (name : Value) : Except Error (Option NodeId) :=
  match NamePath.ofValue? name with
  | some path => w.store.seek w.project path
  | none => .error .wrongType

/-- The namespace for the module, created when it is first asked for. -/
def internalNamespace (job : Job) : Step NodeId := do
  match (← get).internal with
  | some id => return id
  | none =>
    onWorkspace (·.activate job.program)
    match (← get).workspace.create? job.module .nameSpace job.policy.namespaceName none with
    | .error e => throw e
    | .ok (id, w) =>
      take (w.announce? w.project id)
      log fun w => "created internal namespace " ++ (w.store.node id).name.display ++ " in "
        ++ (w.store.node job.module).name.display
      modify fun p => { p with internal := some id }
      return id

def synthesize (job : Job) (symbol : SymbolId) : Step Unit := do
  let scope ← job.internalNamespace
  match ← take ((← get).workspace.convert scope symbol) with
  | none => return ()
  | some id =>
    log fun w => "synthesized " ++ w.store.display id
    onReport fun r => { r with synthesized := r.synthesized ++ [id] }

def link (job : Job) (symbol : SymbolId) (id : NodeId) : Step Unit := do
  let w := (← get).workspace
  match job.owner? w.store id with
  | .error e => throw e
  | .ok none =>
    log fun w => "dropping " ++ (w.store.symbol symbol).display ++ ": no module owns "
      ++ w.store.display id
    onReport fun r => { r with dropped := r.dropped ++ [symbol] }
  | .ok (some owner) =>
    onWorkspace (·.register job.module id (some symbol))
    log fun w => "aliased " ++ (w.store.symbol symbol).display ++ " to " ++ w.store.display id
      ++ " (owned by " ++ (w.store.node owner).name.display ++ ")"
    onReport fun r => { r with aliased := r.aliased ++ [(symbol, id)] }

def resolveSymbol (job : Job) (symbol : SymbolId) : Step Unit := do
  let w := (← get).workspace
  let s := w.store.symbol symbol
  if s.isDefaultExport then
    onReport fun r => { r with skipped := r.skipped ++ [symbol] }
  else
    match nodeNamed w s.name with
    | .error e => throw e
    | .ok (some id) => job.link symbol id
    | .ok none =>
      if job.policy.linkOnly then
        onReport fun r => { r with unresolved := r.unresolved ++ [symbol] }
      else job.synthesize symbol

def resolveAll (job : Job) : List SymbolId → Step Unit
  | [] => return ()
  | symbol :: symbols => do
    job.resolveSymbol symbol
    job.resolveAll symbols

def untried (job : Job) (tried : List SymbolId) (p : Progress) : Except Error (List SymbolId) :=
  match p.internal with
  | some id =>
    if job.policy.linkOnly then .ok []
    else do
      return (← p.workspace.store.search id).filter fun symbol => !tried.contains symbol
  | none => .ok []

/-- Rounds of resolution, at most `n`, until no untried symbol is left. -/
def rounds (job : Job) : Nat → List SymbolId → List SymbolId → Step Unit
  | 0, _, _ => return ()
  | _ + 1, _, [] => return ()
  | n + 1, tried, missing => do
    onReport fun r => { r with rounds := r.rounds + 1 }
    job.resolveAll missing
    let tried := tried ++ missing
    match job.untried tried (← get) with
    | .error e => throw e
    | .ok missing => job.rounds n tried missing

/-- Keeps the namespace if it holds anything, and removes it otherwise. -/
def settle : Step Unit := do
  match (← get).internal with
  | none => return ()
  | some id =>
    if ((← get).workspace.store.children id).isEmpty then onWorkspace (·.remove id)
    else onReport fun r => { r with created := some id }

/-- Resolves the undocumented symbols of the module. -/
def run (job : Job) (missing : List SymbolId) : Step Unit := do
  let count := (← get).workspace.store.symbols.size
  job.rounds (count + 1) [] missing
  settle

end Job

namespace Workspace

/-- The modules that a pass goes through. -/
def modules (w : Workspace) : List NodeId :=
  match w.store.childrenOfKind w.project .module with
  | [] => [w.project]
  | modules => modules

/-- Resolves the undocumented symbols of one module. No program is active afterwards. -/
def resolveModule (w : Workspace) (job : Job) (missing : List SymbolId) :
    Except Error ModuleReport × Workspace :=
  let w := w.report .info .resolution
    ((w.store.node job.module).name.text ++ ": " ++ toString missing.length ++ " missing symbol(s)")
  match (job.run missing).run ⟨w, { module := job.module }, none⟩ with
  | .ok _ p => (.ok p.report, p.workspace.activate none)
  | .error e p => (.error e, p.workspace.activate none)

/-- Resolves modules one by one. The first failure ends the pass. -/
def resolveModules (known : OrdMap NodeId Value) (policy : Policy) (modules : List NodeId) :
    List NodeId → Workspace → Except Error Report × Workspace
  | [], w => (.ok [], w)
  | module :: rest, w =>
    match w.store.search module with
    | .error e => (.error e, w)
    | .ok [] => resolveModules known policy modules rest w
    | .ok missing =>
      match w.resolveModule ⟨module, modules, known.find? module, policy⟩ missing with
      | (.error e, w) => (.error e, w)
      | (.ok r, w) =>
        match resolveModules known policy modules rest w with
        | (.error e, w) => (.error e, w)
        | (.ok rs, w) => (.ok (r :: rs), w)

def hasModules (w : Workspace) : Bool := w.store.haveFlags (w.store.children w.project)

/-- A resolution pass; `known` says which programs the modules come from. -/
def resolvePass (w : Workspace) (known : OrdMap NodeId Value) (policy : Policy) :
    Except Error Report × Workspace :=
  if !w.hasModules then (.error .wrongType, w)
  else
    match resolveModules known policy w.modules w.modules w with
    | (.error e, w) => (.error e, w)
    | (.ok r, w) =>
      (.ok r, w.report .info .resolution ("missing exports: " ++ toString r.aliasedCount
        ++ " aliased, " ++ toString r.synthesizedCount ++ " synthesized"))

end Workspace

end DocTree
