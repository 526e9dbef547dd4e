import DocTree.Cli.Spec
import DocTree.Text.Digit

/-!
# Tokens of a command line

What each word of a command line is, before any of them takes effect. Words behind `--` are
operands. Of the others, those that begin with a dash are switches, except for a dash alone, for
what looks like a negative number, and for words with a space in them that name no switch.

A long name may be shortened as long as it fits one switch only, and may have an argument behind an
equals sign. A short name may have text right behind it, also with an equals sign between them.
-/

namespace DocTree.Cli

/-- What a word is. -/
inductive Meaning (α : Type) where
  | operand
  /-- The word that makes operands of all words behind it. -/
  | separator
  /-- A short name with the text behind it, if anything follows the name in its word. -/
  | short (switch : Switch α) (text : Option (List Char))
  /-- A long name with the argument behind its equals sign. -/
  | long (switch : Switch α) (argument : Option String)
  /-- Looks like a switch, but is none. -/
  | unknown

/-- A word and what it is. -/
structure Token (α : Type) where
  word : String
  meaning : Meaning α

def splitAtEquals (cs : List Char) : List Char × Option String :=
  match cs.dropWhile (· ≠ '=') with
  | [] => (cs, none)
  | _ :: argument => (cs.takeWhile (· ≠ '='), some (String.ofList argument))

def textBehind : List Char → Option (List Char)
  | [] => none
  | '=' :: cs => some cs
  | cs => some cs

/-- What a word is that begins with a dash and is neither a switch nor near to one. -/
def Meaning.ofStray (cs : List Char) : Meaning α :=
  if Text.looksNegative cs || cs.contains ' ' then .operand else .unknown

namespace Spec

/-- What a word is that begins with two dashes. The full name of a switch goes before longer names
that begin with it. -/
def longMeaning (s : Spec α) (cs : List Char) : Except Misuse (Meaning α) :=
  let (name, argument) := splitAtEquals cs
  match s.switch? (String.ofList name) with
  | some switch => .ok (.long switch argument)
  | none =>
    match s.named.filter fun named => name.isPrefixOf named.1.toList with
    | [] => .ok (.ofStray cs)
    | [named] => .ok (.long named.2 argument)
    | several => .error (.ambiguous (String.ofList cs) (several.map Prod.fst))

def shortSwitch? (s : Spec α) (c : Char) : Option (Switch α) :=
  s.switch? (String.ofList ['-', c])

/-- What a word is that begins with a dash and another character. -/
def shortMeaning (s : Spec α) (c : Char) (cs : List Char) : Meaning α :=
  match s.shortSwitch? c with
  | some switch => .short switch (textBehind cs)
  | none => .ofStray ('-' :: c :: cs)

def meaning (s : Spec α) (word : String) : Except Misuse (Meaning α) :=
  match word.toList with
  | '-' :: '-' :: cs => s.longMeaning ('-' :: '-' :: cs)
  | '-' :: c :: cs => .ok (s.shortMeaning c cs)
  | _ => .ok .operand

def tokens (s : Spec α) : List String → Except Misuse (List (Token α))
  | [] => .ok []
  | word :: words =>
    if word = "--" then .ok (⟨word, .separator⟩ :: words.map (⟨·, .operand⟩))
    else do
      let meaning ← s.meaning word
      let tokens ← s.tokens words
      return ⟨word, meaning⟩ :: tokens

end Spec

end DocTree.Cli
