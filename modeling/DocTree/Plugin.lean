import DocTree.Resolve

/-!
# The plugin

The plugin makes resolution part of a conversion. It declares two options, remembers which program
the modules of a project come from while they are converted, and runs a pass, ahead of almost every
other listener, when resolution starts.
-/

namespace DocTree

def namespaceOption : OptionDeclaration where
  name := .str "internalNamespace"
  help := .str ("Define the name of the namespace that internal symbols which are not exported "
    ++ "should be placed into.")
  kind := .text
  fallback := .str "internal"

def linkOnlyOption : OptionDeclaration where
  name := .str "noMissingExports"
  help := .str ("Only link references to types that are already documented; never synthesize "
    ++ "internal declarations.")
  kind := .flag
  fallback := .bool false

def passPriority : Value := .int 1000000000

namespace Workspace

def declareOption (w : Workspace) (d : OptionDeclaration) : Except Error Workspace := do
  return { w with settings := ← w.settings.declare d }

def loadPlugin (w : Workspace) : Except Error Unit × Workspace :=
  match w.declareOption namespaceOption with
  | .error e => (.error e, w)
  | .ok w =>
    match w.declareOption linkOnlyOption with
    | .error e => (.error e, w)
    | .ok w =>
      (.ok (), (w.listen creationEvent (.int 0) .trackProgram).listen resolutionEvent
        passPriority .resolve)

def hasPlugin (w : Workspace) : Bool := w.listeners.any (·.reaction.isResolve)

/-- How the options say that symbols are resolved. -/
def policy (w : Workspace) : Except Error Policy := do
  let name ← w.settings.get namespaceOption.name
  let linkOnly ← w.settings.get linkOnlyOption.name
  return ⟨name, linkOnly.isTruthy⟩

def pluginPass (w : Workspace) : Except Error Report × Workspace :=
  match w.policy with
  | .error e => (.error e, w)
  | .ok policy =>
    let (answer, w) := w.resolvePass w.known policy
    (answer, { w with known := .empty })

/-- Lets listeners react to the start of resolution one by one, up to the first failure; `last` is
the report of the last pass. -/
def startPasses (last : Option Report) (w : Workspace) :
    List Listener → Except Error (Option Report) × Workspace
  | [] => (.ok last, w)
  | l :: ls =>
    match l.reaction with
    | .resolve =>
      match w.pluginPass with
      | (.error e, w) => (.error e, w)
      | (.ok r, w) => startPasses (some r) w ls
    | .note tag => startPasses last (w.noteCall tag [scopeWord]) ls
    | .trackProgram | .noteCreation => (.error .wrongType, w)

/-- Starts resolution of the project; the answer is the report of the pass, if there was one. -/
def resolve (w : Workspace) : Except Error (Option Report) × Workspace :=
  let w := w.report .info .options
    ("resolving project " ++ (w.store.node w.project).name.display)
  match w.reacting? resolutionEvent with
  | none => (.error .wrongType, w)
  | some listeners => w.startPasses none listeners

end Workspace

end DocTree
