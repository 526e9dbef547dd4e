import DocTree.Value.Display

/-!
# Errors

An `Error` names the cause of a failure. Most causes concern the user of the library: these have a
`Notice`, which carries the message and what goes with it (a hint, the option or the place in the
document that is at fault, the position in a type expression), and `Notice.text` puts it in words.
The others are values of the wrong shape, found where nothing checks for them.
-/

namespace DocTree

/-- What a notice is about, with the details that only such a notice has. -/
inductive Notice.Subject where
  | general
  | option (name : Value)
  | context
  | model (path : Value)
  /-- The position is null where it does not matter. -/
  | typeExpression (path text position : Value)

/-- A failure as it is told to the user. Its parts are values; the library itself puts strings
there, and a number for a position. -/
structure Notice where
  subject : Notice.Subject
  message : Value
  hint : Value

namespace Notice

def advice (n : Notice) : Value :=
  if n.hint.isTruthy then .str (n.message.text ++ " (hint: " ++ n.hint.text ++ ")") else n.message

def located (path text : Value) : Value :=
  if path.isTruthy then .str (path.text ++ ": " ++ text.text) else text

/-- A line of text, indented, and below it a mark at a position. -/
def pointer (text : String) (position : Int) : String :=
  "\n    " ++ text ++ "\n    " ++ String.ofList (List.replicate position.toNat ' ') ++ "^"

def isWord (n : Int) : Bool := -(Nat.pow 2 63 : Int) ≤ n && n < (Nat.pow 2 63 : Int)

/-- Whether a number can be a position: a machine word holds it, and a memory that many blanks. -/
def isColumn (n : Int) : Bool := isWord n && n < (Nat.pow 2 38 : Int)

/-- Text with a mark below a line, unless the position is null. Only whole numbers that are
not too large, and truth values as one and zero, are positions. -/
def pointed (line position text : Value) : Option Value :=
  let mark (column : Int) : Value := .str (text.text ++ pointer line.text column)
  match position with
  | .null => some text
  | .int column => if isColumn column then some (mark column) else none
  | .bool b => some (mark (if b then 1 else 0))
  | _ => none

/-- The whole text of a notice, if it comes to a string. -/
def text (n : Notice) : Option String :=
  match n.subject with
  | .model path => (located path n.advice).string?
  | .typeExpression path line position =>
    (pointed line position (located path n.advice)).bind Value.string?
  | _ => n.advice.string?

end Notice

/-- What is wrong with a part of a model document. -/
inductive ModelFault where
  | notObject
  | programsNotObject
  | symbolsNotObject
  | symbolNotObject
  | membersNotObject
  | signatureNotObject
  | typeParametersNotObject
  | unknownKind (label : String)
  | typeNotString (found : Value)
  | moduleWithoutName
  | unknownProgram (name : Value)
  | unknownExport (name program : Value)
  | invalidJson (reason : String)

def unknownKindMessage (label : String) : String :=
  "Unknown reflection kind: " ++ Text.quoted label

def ModelFault.message : ModelFault → String
  | notObject => "model document must be a JSON object"
  | programsNotObject => "'programs' must be an object"
  | symbolsNotObject => "'symbols' must be an object"
  | symbolNotObject => "symbol description must be an object"
  | membersNotObject => "'members' must be an object"
  | signatureNotObject => "signature must be an object"
  | typeParametersNotObject => "'typeParameters' must be an object"
  | unknownKind label => unknownKindMessage label
  | typeNotString found => "type must be a string, got " ++ found.kindName
  | moduleWithoutName => "module must be an object with a 'name'"
  | unknownProgram name => "unknown program " ++ name.display
  | unknownExport name program =>
    "export " ++ name.display ++ " is not a symbol of program " ++ program.display
  | invalidJson reason => "invalid JSON: " ++ reason

/-- Why an operation failed. -/
inductive Error where
  | optionDeclared (name : Value)
  | optionUnknown (name : Value)
  | optionType (name : Value) (expected : String) (found : Value)
  /-- Something was converted while no program was active. -/
  | noActiveProgram
  /-- A declaration was to be created under a node that holds no children. -/
  | notContainer (kind : String) (name : Value) (scope : String)
  | model (path : Value) (fault : ModelFault)
  | typeSyntax (path text : String) (position : Nat)
  /-- A label names no kind. -/
  | unknownKind (label : String)
  /-- A value lacks what is asked of it, such as the fields of an object. -/
  | lacksFeature
  /-- A value is of a type that the operation does not take. -/
  | wrongType
  /-- A whole number has more digits than whole numbers are read from. -/
  | longNumber

namespace Error

/-- What the user is told about a failure. -/
def notice? : Error → Option Notice
  | optionDeclared name =>
    about (.option name) ("Option " ++ name.display ++ " is already declared")
  | optionUnknown name => about (.option name) ("Unknown option " ++ name.display)
  | optionType name expected found =>
    about (.option name) ("Option " ++ name.display ++ " expects a " ++ expected
      ++ ", got " ++ found.kindName ++ " " ++ found.display)
  | noActiveProgram =>
    some ⟨.context, .str "Tried to access the active program when not converting a program",
      .str "call set_active_program() first"⟩
  | notContainer kind name scope =>
    about .context ("Cannot create " ++ kind ++ " " ++ name.display ++ " under " ++ scope
      ++ ": scope cannot hold children")
  | model path fault => about (.model path) fault.message
  | typeSyntax path text position =>
    about (.typeExpression (.str path) (.str text) (.int position))
      ("Invalid type expression " ++ Text.quoted text)
  | unknownKind _ | lacksFeature | wrongType | longNumber => none
where
  about (subject : Notice.Subject) (message : String) : Option Notice :=
    some ⟨subject, .str message, .str ""⟩

end Error

end DocTree
