import DocTree.Error
import DocTree.Store
import DocTree.Text.Part

/-!
# Looking nodes up by name

A path of names leads from a node down through its children, at each step to the first child of that
name. A scope looks a path up among its own children, then its parents do; a project that does
not find it asks its modules, the first of which wins. Going the other way, `fullName` joins the
names from the topmost node below the project.

`Store.find` looks a path up in any store; `Store.seek` does so unless something on the way is out
of place.
-/

namespace DocTree

abbrev NamePath := List Value

/-- The path that a text with dots stands for. -/
def NamePath.ofString (s : String) : NamePath := (Text.parts '.' s).map .str

def NamePath.ofValue? : Value → Option NamePath
  | .str s => some (.ofString s)
  | v => v.parts?

namespace Store

def childNamed (s : Store) (id : NodeId) (name : Value) : Option NodeId :=
  (s.children id).find? fun child => (s.node child).name.same name

/-- The node that a path leads to from a node; an empty path leads nowhere. -/
def childAt (s : Store) : NamePath → NodeId → Option NodeId
  | [], _ => none
  | [name], id => s.childNamed id name
  | name :: next :: rest, id => (s.childNamed id name).bind (s.childAt (next :: rest))

/-- Lookup in a project: among its children, then in its modules in order. -/
def findInProject (s : Store) (project : NodeId) (path : NamePath) : Option NodeId :=
  (s.childAt path project).or
    ((s.childrenOfKind project .module).findSome? (s.childAt path))

def findUp (s : Store) (path : NamePath) : Nat → NodeId → Option NodeId
  | 0, _ => none
  | height + 1, id =>
    match (s.node id).body, (s.node id).parent with
    | .project _, _ => s.findInProject id path
    | _, none => s.childAt path id
    | _, some parent => (s.childAt path id).or (s.findUp path height parent)

/-- Lookup from a scope upwards. -/
def find (s : Store) (scope : NodeId) (path : NamePath) : Option NodeId :=
  s.findUp path (s.nodes.size + 1) scope

/-- Whether nothing is out of place on the way of a lookup, through at most `height` nodes. The way
ends where the path leads somewhere. -/
def checkUp (s : Store) (path : NamePath) : Nat → NodeId → Except Error Unit
  | 0, _ => .ok ()
  | height + 1, id =>
    if (s.childAt path id).isSome then .ok ()
    else
      match (s.node id).body, (s.node id).parent with
      | .project _, _ =>
        if path.isEmpty || s.haveFlags (s.children id) then .ok () else .error .wrongType
      | _, none => if s.strays.hasParent id then .error .lacksFeature else .ok ()
      | _, some parent => s.checkUp path height parent

/-- Lookup from a scope upwards, unless something is out of place on the way. -/
def seek (s : Store) (scope : NodeId) (path : NamePath) : Except Error (Option NodeId) := do
  s.checkUp path (s.nodes.size + 1) scope
  return s.find scope path

def projectUp (s : Store) : Nat → NodeId → Option NodeId
  | 0, _ => none
  | height + 1, id =>
    match (s.node id).body, (s.node id).parent with
    | .project _, _ => some id
    | _, none => none
    | _, some parent => s.projectUp height parent

def projectOf (s : Store) (id : NodeId) : Option NodeId := s.projectUp (s.nodes.size + 1) id

def isProject (s : Store) (id : NodeId) : Bool :=
  match (s.node id).body with
  | .project _ => true
  | _ => false

/-- Whether the way up from a node meets a parent that is no node before it meets a project, through
at most `height` nodes. -/
def adriftUp (s : Store) : Nat → NodeId → Bool
  | 0, _ => false
  | height + 1, id =>
    match (s.node id).parent with
    | none => s.strays.hasParent id
    | some parent => !s.isProject parent && s.adriftUp height parent

def isAdrift (s : Store) (id : NodeId) : Bool := s.adriftUp (s.nodes.size + 1) id

def owningProject (s : Store) (id : NodeId) : Except Error (Option NodeId) :=
  if !s.isProject id && s.isAdrift id then .error .lacksFeature else .ok (s.projectOf id)

def namesUp (s : Store) : Nat → NodeId → List Value
  | 0, _ => []
  | height + 1, id =>
    match (s.node id).parent with
    | some parent =>
      if s.isProject parent then [(s.node id).name]
      else s.namesUp height parent ++ [(s.node id).name]
    | none => [(s.node id).name]

def joinNames (separator : String) (names : List Value) : Except Error Value := do
  let texts ← names.mapM fun
    | .str s => .ok s
    | _ => .error .wrongType
  return .str (separator.intercalate texts)

/-- The full name of a node. A node without a parent to name keeps its name whatever it is. -/
def fullName (s : Store) (separator : String) (id : NodeId) : Except Error Value :=
  if s.isAdrift id then .error .lacksFeature
  else
    match s.namesUp (s.nodes.size + 1) id with
    | [name] => .ok name
    | names => joinNames separator names

end Store

end DocTree
