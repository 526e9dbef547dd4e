import DocTree.Proofs.Document.Declare
import DocTree.Proofs.Faithful.Reading
import DocTree.Proofs.Settings

/-!
# Documents that are in shape, and documents that are accepted

What a document looks like, and what it takes for one that looks like this to be loaded, without reference to loading.

* `Value.FieldIs`, `Value.ListOf`, `Value.ObjectOf`, … : fields of certain forms;
* `Nested spec v` : `v` is the description of a symbol, or of a member of it at any depth that is described like one;
* `typeTexts v` : the type expressions in the description of one symbol; `Readable text` : one that can be read;
* `Shaped document` : a document that has the documented shape;
* `Acceptable document` : its options, kinds, type expressions, programs and exports are in order.
-/

namespace DocTree

namespace Value

/-! ## Forms of fields -/

def IsText (v : Value) : Prop := ∃ text, v = .str text

/-- Null, or of some form. -/
def OrNull (P : Value → Prop) (v : Value) : Prop := v = .null ∨ P v

/-- A list with items of some form. -/
def ListOf (P : Value → Prop) (v : Value) : Prop := ∃ items, v = .list items ∧ ∀ item ∈ items, P item

/-- An object with fields of some form. -/
def ObjectOf (P : Value → Prop) (v : Value) : Prop := ∃ fields, v = .object fields ∧ ∀ f ∈ fields, P f.2

/-- An object. -/
def IsObject (v : Value) : Prop := ∃ fields, v = .object fields

theorem ObjectOf.isObject {P : Value → Prop} {v : Value} (h : ObjectOf P v) : IsObject v := by
  obtain ⟨fields, rfl, _⟩ := h
  exact ⟨fields, rfl⟩

/-- Of some form in a field, if it has the field. -/
def FieldIs (key : String) (P : Value → Prop) (v : Value) : Prop := ∀ x, lookup key v.fields = some x → P x

end Value

open Value (IsText OrNull ListOf ObjectOf IsObject FieldIs)

namespace TypeExpr

mutual

/-- Whether no whole number in an expression has too many digits. -/
def Expr.isShort : Expr → Bool
  | .longNumber => false
  | .literal _ | .query _ => true
  | .name _ es | .union es | .intersection es | .tuple es => areShort es
  | .operator _ e | .array e => e.isShort
  | .object members => memberAreShort members
  | .function parameters result => parametersAreShort parameters && result.isShort

def areShort : List Expr → Bool
  | [] => true
  | e :: es => e.isShort && areShort es

def memberAreShort : List (String × Expr) → Bool
  | [] => true
  | (_, e) :: es => e.isShort && memberAreShort es

def parametersAreShort : List ((String × Marks) × Expr) → Bool
  | [] => true
  | (_, e) :: es => e.isShort && parametersAreShort es

end

end TypeExpr

namespace Document

/-! ## Symbols -/

/-- A text that is a type expression, with no number in it that is too long. -/
def Readable (text : String) : Prop := ∃ e, TypeExpr.parse text = .ok e ∧ e.isShort = true

def textIn : Option Value → List String
  | some (.str text) => [text]
  | _ => []

def textsIn (v : Option Value) : List String := (partsOf v).filterMap Value.string?

def typeParameterTexts (v : Value) : List String :=
  (fieldsOf (Value.lookup "typeParameters" v.fields)).flatMap fun p =>
    textIn (boundsOf p.2).1 ++ textIn (boundsOf p.2).2

def signatureTexts (v : Value) : List String :=
  typeParameterTexts v ++ (fieldsOf (Value.lookup "parameters" v.fields)).flatMap (fun p => textIn (some p.2))
    ++ textIn (Value.lookup "returns" v.fields)

/-- Whether a symbol is described as an enumeration, whose members are just named. -/
def isEnumeration (v : Value) : Bool := (kindOf v).meets .enumeration

/-- The members of a symbol, unless they are just named. -/
def membersOf (v : Value) : List (String × Value) :=
  if isEnumeration v then [] else fieldsOf (Value.lookup "members" v.fields)

/-- The members that are described like symbols: those that are not just types. -/
def innerSpecs (v : Value) : List Value := ((membersOf v).map Prod.snd).filter (·.string?.isNone)

/-- The type expressions in the description of a symbol, apart from those in members that are described like symbols. -/
def typeTexts (v : Value) : List String :=
  typeParameterTexts v ++ textIn (Value.lookup "type" v.fields) ++ textsIn (Value.lookup "extends" v.fields)
    ++ textsIn (Value.lookup "implements" v.fields)
    ++ (partsOf (Value.lookup "signatures" v.fields)).flatMap signatureTexts
    ++ (membersOf v).flatMap fun m => textIn (some m.2)

/-- The description of a symbol itself, or of a member of it at any depth. -/
def Nested : Value → Value → Prop := Relation.ReflTransGen fun a b => b ∈ innerSpecs a

theorem all_nested_iff {P : Value → Prop} {spec : Value} :
    (∀ v, Nested spec v → P v) ↔ P spec ∧ ∀ m ∈ innerSpecs spec, ∀ v, Nested m v → P v := by
  constructor
  · exact fun all => ⟨all spec .refl, fun m mem v way => all v (.head mem way)⟩
  · rintro ⟨here, inner⟩ v way
    rcases Relation.ReflTransGen.cases_head way with rfl | ⟨m, mem, way⟩
    · exact here
    · exact inner m mem v way

/-! ## The shape of documents -/

/-- The form of a type parameter: a constraint, or a constraint and a default. -/
def BoundForm (v : Value) : Prop :=
  OrNull IsText v ∨ IsObject v ∧ v.FieldIs "constraint" (OrNull IsText) ∧ v.FieldIs "default" (OrNull IsText)

structure SignatureForm (v : Value) : Prop where
  object : IsObject v
  typeParameters : v.FieldIs "typeParameters" (ObjectOf BoundForm)
  parameters : v.FieldIs "parameters" (ObjectOf IsText)
  returns : v.FieldIs "returns" (OrNull IsText)

/-- The form of the description of a symbol, apart from what is described in it like a symbol. -/
structure SymbolForm (v : Value) : Prop where
  object : IsObject v
  kind : v.FieldIs "kind" IsText
  type : v.FieldIs "type" (OrNull IsText)
  extended : v.FieldIs "extends" (ListOf IsText)
  implemented : v.FieldIs "implements" (ListOf IsText)
  signatures : v.FieldIs "signatures" (ListOf SignatureForm)
  typeParameters : v.FieldIs "typeParameters" (ObjectOf BoundForm)
  enumeration : isEnumeration v = true → v.FieldIs "members" (OrNull (ListOf IsText))
  members : isEnumeration v = false → v.FieldIs "members" (OrNull (ObjectOf fun m => IsText m ∨ IsObject m))

/-- The form of what says which exports of which program go somewhere. -/
structure ExportForm (v : Value) : Prop where
  program : v.FieldIs "program" (OrNull IsText)
  exports : v.FieldIs "exports" (ListOf IsText)

/-- The form of a module. -/
structure ModuleForm (v : Value) : Prop extends ExportForm v where
  name : ∃ text, Value.lookup "name" v.fields = some (.str text)

/-- The documented shape. As in every object that is read from a text, no name of a program or of a symbol stands
twice. -/
structure Shaped (document : Value) : Prop extends ExportForm document where
  object : IsObject document
  options : document.FieldIs "options" IsObject
  programs : document.FieldIs "programs" (ObjectOf fun p => IsObject p ∧ p.FieldIs "symbols" IsObject)
  distinct : Distinct (programsOf document.fields)
  symbols : ∀ p ∈ programsOf document.fields, ∀ s ∈ programSpecs p.2, ∀ v, Nested s.2 v → SymbolForm v
  modules : document.FieldIs "modules" (OrNull (ListOf ModuleForm))

/-! ### A document in shape -/

/-- An interface with some members. -/
def interfaceOf (members : List (String × Value)) : Value :=
  .object [("kind", .str "interface"), ("members", .object members)]

/-- A document with members in members, the innermost of a kind of some name, and with an opaque symbol that has no
proper type. -/
def deep (label : String) : Value := .object [
  ("options", .object [("noMissingExports", .bool true)]),
  ("programs", .object [("core", .object [("symbols", .object [
    ("Outer", interfaceOf [("size", .str "number"), ("inner", interfaceOf [("leaf", .object [("kind", .str label)])])]),
    ("Hidden", .object [("opaque", .bool true), ("type", .str "((")])])])]),
  ("exports", .list [.str "Outer", .str "Hidden"])]

theorem nested_leaf {fields : List (String × Value)} (kind : ∀ x, Value.lookup "kind" fields = some x → IsText x)
    (type : ∀ x, Value.lookup "type" fields = some x → IsText x)
    (rest : ∀ key ∈ ["extends", "implements", "signatures", "typeParameters", "members"],
      Value.lookup key fields = none) :
    ∀ v, Nested (.object fields) v → SymbolForm v := by
  have none : ∀ key ∈ ["extends", "implements", "signatures", "typeParameters", "members"], ∀ {P : Value → Prop},
      FieldIs key P (.object fields) := by
    intro key mem P x here
    cases (rest key mem).symm.trans here
  have inner : innerSpecs (.object fields) = [] := by
    unfold innerSpecs membersOf
    rw [Value.fields, rest "members" (by simp)]
    split <;> rfl
  refine all_nested_iff.2 ⟨⟨⟨_, rfl⟩, kind, fun x here => Or.inr (type x here), ?_, ?_, ?_, ?_, fun _ => ?_,
    fun _ => ?_⟩, inner ▸ List.forall_mem_nil _⟩ <;> exact none _ (by simp)

/-- An interface is in shape if its members are. -/
theorem nested_interfaceOf {members : List (String × Value)} (form : ∀ m ∈ members, IsText m.2 ∨ IsObject m.2)
    (inner : ∀ m ∈ (members.map Prod.snd).filter (·.string?.isNone), ∀ v, Nested m v → SymbolForm v) :
    ∀ v, Nested (interfaceOf members) v → SymbolForm v := by
  have kind : kindOf (interfaceOf members) = .interface := by
    show (Kind.ofLabel? "interface").getD default = _
    decide
  have plain : isEnumeration (interfaceOf members) = false := by
    rw [isEnumeration, kind]
    decide
  have specs : innerSpecs (interfaceOf members) = (members.map Prod.snd).filter (·.string?.isNone) := by
    unfold innerSpecs membersOf
    rw [plain]
    rfl
  refine all_nested_iff.2
    ⟨⟨⟨_, rfl⟩, ?_, nofun, nofun, nofun, nofun, nofun, fun enum => ?_, fun _ => ?_⟩, specs ▸ inner⟩
  · rintro x ⟨⟩
    exact ⟨_, rfl⟩
  · cases plain.symm.trans enum
  · rintro x ⟨⟩
    exact Or.inr ⟨members, rfl, form⟩

theorem shaped_deep (label : String) : Shaped (deep label) where
  object := ⟨_, rfl⟩
  program := by simp [deep, FieldIs, Value.fields, Value.lookup]
  exports := by simp [deep, FieldIs, Value.fields, Value.lookup, ListOf, IsText]
  options := by simp [deep, FieldIs, Value.fields, Value.lookup, IsObject]
  programs := by simp [deep, FieldIs, Value.fields, Value.lookup, ObjectOf, IsObject]
  distinct := by
    constructor
    · simp [programsOf, fieldsOf, deep, Value.fields, Value.lookup]
    · simp [programsOf, fieldsOf, deep, Value.fields, Value.lookup, programSpecs]
  symbols := by
    have leaf : ∀ v, Nested (.object [("kind", .str label)]) v → SymbolForm v :=
      nested_leaf (by simp [Value.lookup, IsText]) (by simp [Value.lookup]) (by simp [Value.lookup])
    have inner : ∀ v, Nested (interfaceOf [("leaf", .object [("kind", .str label)])]) v → SymbolForm v :=
      nested_interfaceOf (by simp [IsObject]) (by simpa [Value.string?] using leaf)
    have outer : ∀ v, Nested (interfaceOf [("size", .str "number"),
        ("inner", interfaceOf [("leaf", .object [("kind", .str label)])])]) v → SymbolForm v :=
      nested_interfaceOf (by simp [IsText, IsObject, interfaceOf]) (by simpa [Value.string?, interfaceOf] using inner)
    have hidden : ∀ v, Nested (.object [("opaque", .bool true), ("type", .str "((")]) v → SymbolForm v :=
      nested_leaf (by simp [Value.lookup]) (by simp [Value.lookup, IsText]) (by simp [Value.lookup])
    intro p mem s inside
    cases List.mem_singleton.1 mem
    rcases List.mem_cons.1 inside with rfl | inside
    · exact outer
    · cases List.mem_singleton.1 inside
      exact hidden
  modules := by simp [deep, FieldIs, Value.fields, Value.lookup]

/-! ## Documents that are accepted -/

/-- An option is declared, with a value of the kind that it takes. -/
def ValidOption (settings : Settings) (o : String × Value) : Prop :=
  ∃ d, settings.declared.find? (.text o.1) = some d ∧ d.kind.admits o.2 = true

/-- A description is in order, all that is described in it included: each kind is known, and each type expression can be
read. -/
def Describable (spec : Value) : Prop :=
  ∀ v, Nested spec v → (statedKind? v).isSome ∧ ∀ text ∈ typeTexts v, Readable text

/-- A description is in order, apart from its own kind. -/
structure Legible (spec : Value) : Prop where
  types : ∀ text ∈ typeTexts spec, Readable text
  members : ∀ m ∈ innerSpecs spec, Describable m

theorem describable_iff {spec : Value} : Describable spec ↔ (statedKind? spec).isSome ∧ Legible spec := by
  unfold Describable
  rw [all_nested_iff, and_assoc]
  exact and_congr_right fun _ => ⟨fun both => ⟨both.1, both.2⟩, fun legible => ⟨legible.types, legible.members⟩⟩

def symbolsIn (programs : List (String × Value)) (program : String) : List String :=
  (((Value.lookup program programs).map programSpecs).getD []).map Prod.fst

/-- What says which exports of which program go somewhere is in order: there is such a program, or no other if none is
named, and it has such symbols. -/
structure Supplies (programs : List (String × Value)) (v : Value) : Prop where
  program : ∀ name, (Value.lookup "program" v.fields).getD .null = .str name → name ∈ programs.map Prod.fst
  only : (Value.lookup "program" v.fields).getD .null = .null → programs.length = 1
  exports : ∀ m ∈ exportsOf programs v.fields, m.2 ∈ symbolsIn programs m.1

/-- A document of this shape that is in order, for some settings. -/
structure Acceptable (settings : Settings) (document : Value) : Prop where
  options : ∀ o ∈ fieldsOf (Value.lookup "options" document.fields), ValidOption settings o
  kinds : ∀ p ∈ programsOf document.fields, ∀ s ∈ programSpecs p.2, (statedKind? s.2).isSome
  symbols : ∀ p ∈ programsOf document.fields, ∀ s ∈ programSpecs p.2, isOpaque s.2 = false → Describable s.2
  exports : modulesOf document.fields = none → Supplies (programsOf document.fields) document
  modules : ∀ ts, modulesOf document.fields = some ts → ∀ t ∈ ts, Supplies (programsOf document.fields) t

end Document

end DocTree
