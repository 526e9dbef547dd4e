import DocTree.Kind
import DocTree.OrdMap
import DocTree.Ty
import DocTree.Value.Display
import DocTree.Value.Key

/-!
# Symbols

A symbol is a declaration as a compiler knows it, whether documented or not. Its description is what
conversion turns into nodes; a symbol without one cannot be converted. Symbols of one name in two
programs are different symbols.
-/

namespace DocTree

structure TypeParameterShape where
  name : Value
  constraint : Option Ty := none
  fallback : Option Ty := none

structure ParameterShape where
  name : Value
  type : Option Ty := none
  isOptional : Value := .bool false
  isRest : Value := .bool false
  defaultValue : Value := .null

structure SignatureShape where
  parameters : List ParameterShape := []
  typeParameters : List TypeParameterShape := []
  result : Option Ty := none

structure Description where
  type : Option Ty := none
  defaultValue : Value := .null
  signatures : List SignatureShape := []
  typeParameters : List TypeParameterShape := []
  members : List SymbolId := []
  extendedTypes : List Ty := []
  implementedTypes : List Ty := []

structure Symbol where
  name : Value
  kind : Kind
  /-- The name of the program that the symbol belongs to. -/
  program : Option Value
  description : Option Description
  deriving Inhabited

namespace Symbol

def defaultExport : String := "default"

def isDefaultExport (s : Symbol) : Bool := s.name.same (.str defaultExport)

def programText (s : Symbol) : String := (s.program.map Value.text).getD "?"

def display (s : Symbol) : String :=
  "<Symbol " ++ s.name.display ++ " (" ++ s.kind.label ++ ") in " ++ s.programText ++ ">"

end Symbol

/-- One compilation. -/
structure Program where
  name : Value
  /-- The symbols by the keys of their names. -/
  symbols : OrdMap Value.Key SymbolId
  deriving Inhabited

namespace Program

/-- A program without symbols. -/
def empty (name : Value) : Program := ⟨name, .empty⟩

def insert (p : Program) (key : Value.Key) (symbol : SymbolId) : Program :=
  { p with symbols := p.symbols.insert key symbol }

def display (p : Program) : String :=
  "<Program " ++ p.name.display ++ " (" ++ toString p.symbols.size ++ " symbols)>"

end Program

end DocTree
