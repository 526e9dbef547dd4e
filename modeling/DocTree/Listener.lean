import DocTree.Priority

/-!
# Listeners

Listeners are data. They react to two events of the library's own, the creation of a declaration and
the start of resolution, and to any other event by its name; those of higher priority react first,
equals in the order they were added. A listener may be given any value for a priority. If one to an
event has a priority that is no number, none reacts.
-/

namespace DocTree

/-- What a listener does. -/
inductive Reaction where
  /-- Remember the active program as the one that a scope of the project comes from. -/
  | trackProgram
  /-- Run a resolution pass. -/
  | resolve
  /-- Take down the call under a tag. -/
  | note (tag : Value)
  /-- Take down the declaration that was created. -/
  | noteCreation

def Reaction.isResolve : Reaction → Bool
  | resolve => true
  | _ => false

structure Listener where
  event : Value.Key
  priority : Value
  reaction : Reaction

/-- The event of the creation of a declaration. -/
def creationEvent : Value.Key := .text "createDeclaration"

def resolutionEvent : Value.Key := .text "resolveBegin"

namespace Listener

/-- A listener with its priority, if that is a number. -/
def ranked? (l : Listener) : Option (Priority × Listener) :=
  (Priority.ofValue? l.priority).map (·, l)

def toEvent? (listeners : List Listener) (event : Value.Key) : Option (List Listener) :=
  ((listeners.filter (·.event = event)).mapM ranked?).map Priority.inOrder

end Listener

/-- How a call shows a plain value: containers by the word for them only. -/
def shownArgument : Value → Value
  | .list items => .str (Value.list items).kindName
  | .object fields => .str (Value.object fields).kindName
  | v => v

end DocTree
