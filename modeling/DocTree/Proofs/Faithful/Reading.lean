import DocTree.Proofs.Document.Declare
import DocTree.Proofs.Output.Relabel

/-!
# What a document says

The tree that a document describes, read off the document from top to bottom: without numbers, without a store, and
without converting anything. What a reference leads to is written as the place of an export among all exports.

* `exprForm`, `typeForm` : a type;
* `signatureForm`, `symbolForm` : a signature, and a symbol with its members;
* `newExports`, `exportsInOrder` : what is exported where, each symbol once;
* `read document` : the whole tree;
* `erase layered output` : output without numbers, with the places of exports for what references lead to.
-/

namespace DocTree

open Ty (optionalField)
open Store (listField unlessNull)

namespace Document

/-! ## Types -/

/-- What names lead to: the place of the export they stand for, unless a type parameter hides it. -/
structure Outlook where
  place : String → Option Nat
  hidden : List String

namespace Outlook

/-- With more type parameters in sight. -/
def hide (o : Outlook) (names : List String) : Outlook := { o with hidden := names ++ o.hidden }

/-- What a name leads to. -/
def target (o : Outlook) (name : String) : Option Nat :=
  if o.hidden.contains (Scope.headOf name) then none else o.place name

end Outlook

/-- A node without its number. -/
def nodeForm (name : Value) (variant : String) (kind : Kind) (fields : List (String × Value)) (children : List Value) :
    Value :=
  .object ([("id", .null), ("name", name), ("variant", .str variant), ("kind", .str kind.label)] ++ fields
    ++ listField "children" children)

def markField (key : String) (mark : Bool) : List (String × Value) := if mark then [(key, .bool true)] else []

def referenceForm (o : Outlook) (name : String) (args : List Value) : Value :=
  .object ([("type", .str "reference"), ("name", .str name),
    ("target", ((o.target name).map fun place : Nat => Value.int place).getD .null)] ++ listField "typeArguments" args)

/-- A declaration that stands inside a type. -/
def inlineForm (fields : List (String × Value)) (children : List Value) : Value :=
  .object [("type", .str "reflection"),
    ("declaration", nodeForm TypeExpr.inlineName "declaration" .typeLiteral fields children)]

open TypeExpr in
mutual

/-- The type that an expression writes. -/
def exprForm (o : Outlook) : Expr → Value
  | .name path args =>
    if args.isEmpty && intrinsicNames.contains path then
      .object [("type", .str "intrinsic"), ("name", .str path)]
    else referenceForm o path (exprForms o args)
  | .literal value => .object [("type", .str "literal"), ("value", value)]
  | .longNumber => .null
  | .query path => .object [("type", .str "query"), ("queryType", referenceForm o path [])]
  | .operator word e =>
    .object [("type", .str "typeOperator"), ("operator", .str word), ("target", exprForm o e)]
  | .array e => .object [("type", .str "array"), ("elementType", exprForm o e)]
  | .union es => .object [("type", .str "union"), ("types", .list (exprForms o es))]
  | .intersection es => .object [("type", .str "intersection"), ("types", .list (exprForms o es))]
  | .tuple es => .object [("type", .str "tuple"), ("elements", .list (exprForms o es))]
  | .object members => inlineForm [] (propertyForms o members)
  | .function parameters result => inlineForm (listField "signatures" [nodeForm inlineName "signature" .callSignature
      (listField "parameters" (argumentForms o parameters) ++ [("type", exprForm o result)]) []]) []

def exprForms (o : Outlook) : List Expr → List Value
  | [] => []
  | e :: es => exprForm o e :: exprForms o es

def propertyForms (o : Outlook) : List (String × Expr) → List Value
  | [] => []
  | (name, e) :: members =>
    nodeForm (.str name) "declaration" .property [("type", exprForm o e)] [] :: propertyForms o members

/-- The parameters of a function type. -/
def argumentForms (o : Outlook) : List ((String × Marks) × Expr) → List Value
  | [] => []
  | ((name, marks), e) :: parameters =>
    nodeForm (.str name) "param" .parameter ([("type", exprForm o e)] ++ markField "isOptional" marks.isOptional
      ++ markField "isRest" marks.isRest) [] :: argumentForms o parameters

end

def typeForm (o : Outlook) : Value → Value
  | .str text =>
    match TypeExpr.parse text with
    | .ok e => exprForm o e
    | .error _ => .null
  | _ => .null

def typeForm? (o : Outlook) : Option Value → Option Value
  | none | some .null => none
  | some v => some (typeForm o v)

/-! ## Symbols -/

def partsOf (v : Option Value) : List Value := ((v.getD (.list [])).parts?).getD []

/-- The fields of a field that is an object, or of nothing. -/
def fieldsOf (v : Option Value) : List (String × Value) := (v.map Value.fields).getD []

/-- The constraint and the default of a type parameter. -/
def boundsOf : Value → Option Value × Option Value
  | .object fields => (Value.lookup "constraint" fields, Value.lookup "default" fields)
  | v => (some v, none)

def typeParameterForm (o : Outlook) (p : String × Value) : Value :=
  nodeForm (.str p.1) "typeParam" .typeParameter
    (optionalField "type" (typeForm? o (boundsOf p.2).1) ++ optionalField "default" (typeForm? o (boundsOf p.2).2)) []

def parameterForm (o : Outlook) (p : String × Value) : Value :=
  nodeForm (.str (MarkedName.ofString p.1).name) "param" .parameter ([("type", typeForm o p.2)]
    ++ markField "isOptional" (MarkedName.ofString p.1).isOptional
    ++ markField "isRest" (MarkedName.ofString p.1).isRest) []

def typeParameterNames (fields : List (String × Value)) : List String :=
  (fieldsOf (Value.lookup "typeParameters" fields)).map Prod.fst

def typeParameterForms (o : Outlook) (fields : List (String × Value)) : List Value :=
  (fieldsOf (Value.lookup "typeParameters" fields)).map (typeParameterForm (o.hide (typeParameterNames fields)))

/-- A signature of a symbol: classes are constructed, everything else is called. -/
def signatureForm (o : Outlook) (name : Value) (kind : Kind) (v : Value) : Value :=
  let inner := o.hide (typeParameterNames v.fields)
  nodeForm (if kind.meets .classKind then .str ("new " ++ name.text) else name) "signature"
    (if kind.meets .classKind then .constructorSignature else .callSignature)
    (listField "typeParameters" (typeParameterForms o v.fields)
      ++ listField "parameters" ((fieldsOf (Value.lookup "parameters" v.fields)).map (parameterForm inner))
      ++ optionalField "type" (typeForm? inner (Value.lookup "returns" v.fields))) []

/-- What a symbol is described by, apart from its members. -/
def symbolFields (o : Outlook) (name : Value) (kind : Kind) (fields : List (String × Value)) : List (String × Value) :=
  let inner := o.hide (typeParameterNames fields)
  optionalField "type" (typeForm? inner (Value.lookup "type" fields))
    ++ optionalField "defaultValue" (unlessNull ((Value.lookup "value" fields).getD .null))
    ++ listField "typeParameters" (typeParameterForms o fields)
    ++ listField "signatures" ((partsOf (Value.lookup "signatures" fields)).map (signatureForm inner name kind))
    ++ listField "extendedTypes" ((partsOf (Value.lookup "extends" fields)).map (typeForm inner))
    ++ listField "implementedTypes" ((partsOf (Value.lookup "implements" fields)).map (typeForm inner))

def kindOf (v : Value) : Kind := (statedKind? v).getD default

def enumMemberForm (name : Value) : Value := nodeForm name "declaration" .enumMember [] []

mutual

def symbolForm (o : Outlook) (name : Value) : Value → Value
  | .object fields =>
    nodeForm name "declaration" (kindOf (.object fields)) (symbolFields o name (kindOf (.object fields)) fields)
      (memberFormsAmong (o.hide (typeParameterNames fields)) (kindOf (.object fields)) fields)
  | _ => .null

def memberFormsAmong (o : Outlook) (kind : Kind) : List (String × Value) → List Value
  | [] => []
  | (key, v) :: rest => if key = "members" then memberForms o kind v else memberFormsAmong o kind rest

/-- The members of a symbol: those of an enumeration are just named. -/
def memberForms (o : Outlook) (kind : Kind) : Value → List Value
  | .object fields =>
    if kind.meets .enumeration then fields.map fun f => enumMemberForm (.str f.1) else memberFormList o fields
  | v => if kind.meets .enumeration then (v.parts?.getD []).map enumMemberForm else []

/-- Members, one by one: a text is the type of a property. -/
def memberFormList (o : Outlook) : List (String × Value) → List Value
  | [] => []
  | (raw, spec) :: rest =>
    (match spec with
      | .str text => nodeForm (.str (MarkedName.ofString raw).name) "declaration" .property
          [("type", typeForm o (.str text))] []
      | _ => symbolForm o (.str (MarkedName.ofString raw).name) spec) :: memberFormList o rest

end

/-! ## Exports -/

/-- A symbol, by the names of its program and its own. -/
abbrev Mention := String × String

/-- What the programs of a document say about a symbol. -/
def specOf (programs : List (String × Value)) (m : Mention) : Value :=
  (((Value.lookup m.1 programs).map programSpecs).bind (Value.lookup m.2)).getD .null

/-- The program that is meant by a field; the only one there is needs no name. -/
def programMeant (programs : List (String × Value)) : Value → String
  | .str name => name
  | _ => (programs.map Prod.fst).headD ""

def exportsOf (programs fields : List (String × Value)) : List Mention :=
  ((partsOf (Value.lookup "exports" fields)).filterMap Value.string?).map
    (programMeant programs ((Value.lookup "program" fields).getD .null), ·)

/-- Of some exports those that are described and did not come before, each once. -/
def newExports (programs : List (String × Value)) (earlier exports : List Mention) : List Mention :=
  (exports.filter fun m => !isOpaque (specOf programs m) && !earlier.contains m).eraseDups

/-- The programs of a document. -/
def programsOf (fields : List (String × Value)) : List (String × Value) := fieldsOf (Value.lookup "programs" fields)

/-- The modules of a document, if it has any. -/
def modulesOf (fields : List (String × Value)) : Option (List Value) :=
  match (Value.lookup "modules" fields).getD .null with
  | .null => none
  | modules => some (modules.parts?.getD [])

/-- All that a document exports, in order. -/
def exportsInOrder (fields : List (String × Value)) : List Mention :=
  newExports (programsOf fields) [] <| match modulesOf fields with
    | none => exportsOf (programsOf fields) fields
    | some modules => modules.flatMap fun m => exportsOf (programsOf fields) m.fields

/-- The form of an export, by the places of all exports. -/
def exportForm (programs : List (String × Value)) (exports : List Mention) (m : Mention) : Value :=
  symbolForm ⟨fun name => exports.idxOf? (m.1, name), []⟩ (.str m.2) (specOf programs m)

/-- Modules one by one, after some exports. -/
def moduleForms (programs : List (String × Value)) (form : Mention → Value) : List Mention → List Value → List Value
  | _, [] => []
  | earlier, m :: ms =>
    nodeForm ((Value.lookup "name" m.fields).getD .null) "declaration" .module []
        ((newExports programs earlier (exportsOf programs m.fields)).map form)
      :: moduleForms programs form (earlier ++ exportsOf programs m.fields) ms

/-- The tree that a document describes. -/
def read (document : Value) : Value :=
  let fields := document.fields
  let form := exportForm (programsOf fields) (exportsInOrder fields)
  nodeForm ((Value.lookup "name" fields).getD (.str "project")) "project" .project [] <| match modulesOf fields with
    | none => (exportsInOrder fields).map form
    | some modules => moduleForms (programsOf fields) form [] modules

/-! ## Output without numbers -/

def childForms (v : Value) : List Value :=
  match Value.lookup "children" v.fields with
  | some (.list forms) => forms
  | _ => []

def numberIn (v : Value) : NodeId :=
  match Value.lookup "id" v.fields with
  | some (.int n) => n.toNat
  | _ => 0

/-- Whether the exports of a document stand in modules. -/
def isLayered (document : Value) : Bool := (modulesOf document.fields).isSome

/-- The numbers of exports in the order of output, in modules or right below the project. -/
def exportNumbers (layered : Bool) (output : Value) : List NodeId :=
  (if layered then (childForms output).flatMap childForms else childForms output).map numberIn

/-- Output without the numbers of nodes. What references lead to is written as the place among the exports. -/
def erase (layered : Bool) (output : Value) : Value :=
  relabel (fun _ => .null) (fun id => (exportNumbers layered output).idxOf id) output

end Document

end DocTree
