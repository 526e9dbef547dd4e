import DocTree.Text.Quoted

/-!
# What a command accepts

A command accepts switches and one operand. A switch has short names (a dash and a character) and
long names (two dashes and a word); some take an argument. A `Spec` gives the switches of a command
together with what each does to the settings of the command.

Reading a command line may end before there are settings, for one of the reasons in `Ending`.
-/

namespace DocTree.Cli

inductive Argument where
  | word (text : String)
  /-- Two dashes written to the switch itself: the argument is left open. -/
  | blank
  deriving DecidableEq, Repr

def Argument.ofText (text : String) : Argument := if text = "--" then .blank else .word text

/-- What a switch does. -/
inductive Effect (α : Type) where
  /-- Shows the help and ends. -/
  | help
  /-- Shows the version and ends. -/
  | version
  | change (f : α → α)
  /-- Takes any text as its argument. -/
  | text (f : Argument → α → α)
  /-- Takes one of some words as its argument, or does something else without one. -/
  | choice (cases : List (String × (α → α))) (otherwise : α → α)

structure Switch (α : Type) where
  names : List String
  effect : Effect α
  about : String

namespace Switch

def takesArgument (s : Switch α) : Bool :=
  match s.effect with
  | .text _ | .choice .. => true
  | _ => false

/-- The names of a switch, as messages give them. -/
def label (s : Switch α) : String := "/".intercalate s.names

end Switch

/-- How much of a command line the operand is. -/
inductive OperandExtent where
  | oneWord
  /-- The operand and everything behind it. -/
  | allWords
  deriving DecidableEq

/-- What a command accepts. -/
structure Spec (α : Type) where
  /-- The words that call the command. -/
  program : String
  about : String
  switches : List (Switch α)
  operand : String
  extent : OperandExtent

def Spec.switch? (s : Spec α) (name : String) : Option (Switch α) :=
  s.switches.find? (·.names.contains name)

def Spec.named (s : Spec α) : List (String × Switch α) :=
  s.switches.flatMap fun switch => switch.names.map (·, switch)

/-- What is wrong with a command line. -/
inductive Misuse where
  /-- A shortened name fits several switches. -/
  | ambiguous (word : String) (names : List String)
  /-- A switch that takes no argument was given one. -/
  | needlessArgument (label argument : String)
  | missingArgument (label : String)
  | notAChoice (label word : String) (choices : List String)
  | missingOperand (operand : String)
  | unrecognized (words : List String)
  deriving DecidableEq, Repr

/-- The words for what is wrong with a command line. -/
def Misuse.message : Misuse → String
  | ambiguous word names =>
    "ambiguous option: " ++ word ++ " could match " ++ ", ".intercalate names
  | needlessArgument label argument =>
    "argument " ++ label ++ ": ignored explicit argument " ++ Text.quoted argument
  | missingArgument label => "argument " ++ label ++ ": expected one argument"
  | notAChoice label word choices =>
    "argument " ++ label ++ ": invalid choice: " ++ Text.quoted word ++ " (choose from "
      ++ ", ".intercalate (choices.map Text.quoted) ++ ")"
  | missingOperand operand => "the following arguments are required: " ++ operand
  | unrecognized words => "unrecognized arguments: " ++ " ".intercalate words

/-- Why the reading of a command line ended early. -/
inductive Ending where
  /-- The help of a command is asked for. -/
  | help (program : String)
  | version
  /-- There is nothing to do. -/
  | noCommand
  | misuse (program : String) (fault : Misuse)
  deriving DecidableEq, Repr

end DocTree.Cli
