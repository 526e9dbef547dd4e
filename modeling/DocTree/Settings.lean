import DocTree.Error
import DocTree.OrdMap
import DocTree.Value.Key

/-!
# Settings

Options have to be declared before they are used; a declaration gives the kind of value an option
takes and its default. A value of another kind is refused, so that a set option always has a value
of its kind. Any value that has a key can be the name of an option.
-/

namespace DocTree

inductive OptionKind where
  | text
  | flag
  deriving DecidableEq, Repr

namespace OptionKind

def word : OptionKind → String
  | text => "string"
  | flag => "boolean"

def admits : OptionKind → Value → Bool
  | text, .str _ => true
  | flag, .bool _ => true
  | _, _ => false

end OptionKind

structure OptionDeclaration where
  name : Value
  help : Value
  kind : OptionKind
  fallback : Value

namespace OptionDeclaration

def validate (d : OptionDeclaration) (v : Value) : Except Error Value :=
  if d.kind.admits v then .ok v else .error (.optionType d.name d.kind.word v)

end OptionDeclaration

/-- The declared options and the values set. -/
structure Settings where
  declared : OrdMap Value.Key OptionDeclaration
  values : OrdMap Value.Key Value
  deriving Inhabited

namespace Settings

/-- No option is declared. -/
def empty : Settings := ⟨.empty, .empty⟩

def keyOf (name : Value) : Except Error Value.Key :=
  match name.key? with
  | some key => .ok key
  | none => .error .wrongType

def isDeclared (s : Settings) (name : Value) : Except Error Bool := do
  return s.declared.contains (← keyOf name)

def declare (s : Settings) (d : OptionDeclaration) : Except Error Settings := do
  let key ← keyOf d.name
  if s.declared.contains key then throw (.optionDeclared d.name)
  match d.fallback with
  | .null => pure ()
  | v => let _ ← d.validate v
  return { s with declared := s.declared.insert key d }

/-- The declaration of an option. -/
def declaration (s : Settings) (name : Value) : Except Error OptionDeclaration := do
  match s.declared.find? (← keyOf name) with
  | some d => return d
  | none => throw (.optionUnknown name)

def get (s : Settings) (name : Value) : Except Error Value := do
  let d ← s.declaration name
  return (s.values.find? (← keyOf name)).getD d.fallback

/-- Sets an option. -/
def set (s : Settings) (name v : Value) : Except Error Settings := do
  let d ← s.declaration name
  let v ← d.validate v
  return { s with values := s.values.insert (← keyOf name) v }

def isSet (s : Settings) (name : Value) : Except Error Bool := do
  let _ ← s.declaration name
  return s.values.contains (← keyOf name)

end Settings

end DocTree
