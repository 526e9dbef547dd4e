import DocTree.Listener
import DocTree.Log
import DocTree.Settings
import DocTree.Store.Walk

/-!
# Workspaces

A workspace is everything that a conversion works on: the store, the project being converted, the
program being converted at the moment, the bindings made in each scope, the options, the listeners,
and the log.

The operations on the tree are here: creating a declaration in a scope, registering a node, removing
one with everything below it, and announcing a declaration to the listeners.
-/

namespace DocTree

/-- A created declaration, as a listener took it down. -/
structure Creation where
  scope : NodeId
  id : NodeId
  name : Value
  program : Option Value

abbrev Bindings := OrdMap NodeId (List (SymbolId × NodeId))

/-- Everything that a conversion works on. -/
structure Workspace where
  store : Store
  /-- The project being converted. -/
  project : NodeId
  /-- The name of the program being converted. -/
  active : Option Value
  /-- What was bound in each scope, in order. -/
  bindings : Bindings
  /-- The programs by the keys of their names. -/
  programs : OrdMap Value.Key Program
  settings : Settings
  listeners : List Listener
  /-- The names of the programs that the scopes of the project come from. -/
  known : OrdMap NodeId Value
  /-- Calls taken down, each with its tag. -/
  calls : List (List Value)
  /-- Creations taken down. -/
  creations : List Creation
  /-- The log, the last line first. -/
  log : List LogLine
  deriving Inhabited

namespace Workspace

/-- The workspace before anything happened. -/
def empty : Workspace where
  store := .empty
  project := 0
  active := none
  bindings := .empty
  programs := .empty
  settings := .empty
  listeners := []
  known := .empty
  calls := []
  creations := []
  log := []

def report (w : Workspace) (level : LogLevel) (source : LogSource) (message : String) :
    Workspace :=
  { w with log := ⟨level, source, message⟩ :: w.log }

def startProject (w : Workspace) (name : Value) : Workspace :=
  let (id, store) := w.store.addProject name
  { w with store := store, project := id, active := none, bindings := .empty, programs := .empty }

/-- The index of the project being converted. -/
def index (w : Workspace) : Index := w.store.index w.project

def nodeOf? (w : Workspace) (symbol : SymbolId) : Option NodeId := w.index.nodeOf? symbol

def bound (w : Workspace) (scope : NodeId) : List (SymbolId × NodeId) :=
  (w.bindings.find? scope).getD []

/-- Activates a program, or none. -/
def activate (w : Workspace) (program : Option Value) : Workspace := { w with active := program }

/-- Lists a node in the project without binding a symbol. -/
def list (w : Workspace) (id : NodeId) : Workspace :=
  { w with store := w.store.register w.project id none }

def register (w : Workspace) (scope id : NodeId) (symbol : Option SymbolId) : Workspace :=
  let w := { w with store := w.store.register w.project id symbol }
  match symbol with
  | none => w
  | some symbol => { w with bindings := w.bindings.insert scope (w.bound scope ++ [(symbol, id)]) }

def create (w : Workspace) (scope : NodeId) (kind : Kind) (name : Value)
    (symbol : Option SymbolId) : NodeId × Workspace :=
  let (id, store) := w.store.addNode ⟨name, kind, none, .declaration {}⟩
  (id, { w with store := store.addChild scope id }.register scope id symbol)

/-- The refusal to create a declaration in a scope. -/
def noContainer (w : Workspace) (scope : NodeId) (kind : Kind) (name : Value) : Error :=
  if w.store.strays.hasLabel scope then .notContainer kind.label name (w.store.display scope)
  else .lacksFeature

/-- Creates a declaration in a scope, provided that it can hold children. -/
def create? (w : Workspace) (scope : NodeId) (kind : Kind) (name : Value)
    (symbol : Option SymbolId) : Except Error (NodeId × Workspace) :=
  if w.store.isContainer scope then .ok (w.create scope kind name symbol)
  else .error (w.noContainer scope kind name)

def pruneBindings (removed : List NodeId) (bindings : Bindings) : Bindings :=
  (removed.foldl OrdMap.erase bindings).mapValues fun _ pairs =>
    pairs.filter fun pair => !removed.contains pair.2

/-- Removes a node and everything below it from the project and from the bindings. -/
def remove (w : Workspace) (id : NodeId) : Workspace :=
  { w with
    store := w.store.remove w.project id
    bindings := pruneBindings (w.store.walk id) w.bindings }

/-! ## Events -/

/-- Adds a listener. -/
def listen (w : Workspace) (event : Value.Key) (priority : Value) (reaction : Reaction) :
    Workspace :=
  { w with listeners := w.listeners ++ [⟨event, priority, reaction⟩] }

def noteCall (w : Workspace) (tag : Value) (args : List Value) : Workspace :=
  { w with calls := w.calls ++ [tag :: args] }

def trackedKinds : Kind := ⟨Kind.project.bits + Kind.module.bits⟩

def scopeWord : Value := .str "Context"

/-- How a listener reacts to a declaration created in a scope. -/
def reactToCreation (scope id : NodeId) (w : Workspace) (listener : Listener) : Workspace :=
  match listener.reaction with
  | .trackProgram =>
    match w.active with
    | some program =>
      if (w.store.node scope).isKind trackedKinds then
        { w with known := w.known.insert scope program }
      else w
    | none => w
  | .note tag => w.noteCall tag [scopeWord, .str (w.store.node id).body.typeName]
  | .noteCreation =>
    { w with creations := w.creations ++ [⟨scope, id, (w.store.node id).name, w.active⟩] }
  | .resolve => w

def reacting? (w : Workspace) (event : Value.Key) : Option (List Listener) :=
  Listener.toEvent? w.listeners event

/-- Whether creations can be announced: the listeners to them can be put in order. -/
def canAnnounce (w : Workspace) : Bool := (w.reacting? creationEvent).isSome

def announce (w : Workspace) (scope id : NodeId) : Workspace :=
  ((w.reacting? creationEvent).getD []).foldl (reactToCreation scope id)
    (w.report .debug .conversion
      ("created " ++ w.store.display id ++ " under " ++ w.store.display scope))

def announce? (w : Workspace) (scope id : NodeId) : Except Error Unit × Workspace :=
  (if w.canAnnounce then .ok () else .error .wrongType, w.announce scope id)

/-- How a listener reacts to an event that carries plain values. One that expects something else
cannot use them. -/
def reactToValues (args : List Value) (w : Workspace) (listener : Listener) :
    Except Error Workspace :=
  let refuse (count : Nat) : Except Error Workspace :=
    .error (if args.length = count then .lacksFeature else .wrongType)
  match listener.reaction with
  | .note tag => .ok (w.noteCall tag (args.map shownArgument))
  | .resolve => refuse 1
  | .trackProgram | .noteCreation => refuse 2

/-- Lets listeners react to plain values one by one, up to the first that cannot use them. -/
def reactAll (args : List Value) (w : Workspace) : List Listener → Except Error Unit × Workspace
  | [] => (.ok (), w)
  | l :: ls =>
    match reactToValues args w l with
    | .error e => (.error e, w)
    | .ok w => reactAll args w ls

def trigger (w : Workspace) (event : Value.Key) (args : List Value) :
    Except Error Unit × Workspace :=
  match w.reacting? event with
  | none => (.error .wrongType, w)
  | some listeners => reactAll args w listeners

/-! ## Options -/

def setOption (w : Workspace) (name v : Value) : Except Error Workspace := do
  let settings ← w.settings.set name v
  return { w with settings := settings }.report .debug .options
    ("option " ++ name.text ++ " = " ++ v.display)

/-- Sets options one by one, up to the first that fails. -/
def setOptions (w : Workspace) : List (String × Value) → Except Error Unit × Workspace
  | [] => (.ok (), w)
  | (name, v) :: rest =>
    match w.setOption (.str name) v with
    | .error e => (.error e, w)
    | .ok w => w.setOptions rest

end Workspace

end DocTree
