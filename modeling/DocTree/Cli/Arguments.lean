import DocTree.Cli.Token

/-!
# Arguments of a command

The words of a command line take effect from left to right. A word of short switches is first taken
apart (`Spec.unfold`): switches without an argument may stand together in one word, the last one may
have an argument behind it. Only when the whole word is understood do its switches take effect. What
is neither a switch of the command, nor its operand, is set aside.
-/

namespace DocTree.Cli

/-- A switch with the argument it takes; the argument of one that takes none does not matter. -/
structure Given (α : Type) where
  switch : Switch α
  argument : Argument

/-- A word of switches, taken apart. -/
structure Unfolded (α : Type) where
  given : List (Given α)
  /-- A switch that takes the next word as its argument. -/
  waiting : Option (Switch α)

namespace Unfolded

def bare (switch : Switch α) : Unfolded α :=
  if switch.takesArgument then ⟨[], some switch⟩ else ⟨[⟨switch, .blank⟩], none⟩

def one (switch : Switch α) (argument : String) : Unfolded α :=
  ⟨[⟨switch, .ofText argument⟩], none⟩

def cons (switch : Switch α) (u : Unfolded α) : Unfolded α :=
  { u with given := ⟨switch, .blank⟩ :: u.given }

end Unfolded

def needless (switch : Switch α) (text : List Char) : Except Misuse β :=
  .error (.needlessArgument switch.label (String.ofList text))

namespace Spec

/-- Takes apart a short switch and the text behind it, which is its argument, or begins with the
name of one more switch. -/
def unfoldShort (s : Spec α) (switch : Switch α) : List Char → Except Misuse (Unfolded α)
  | [] => if switch.takesArgument then .ok (.one switch "") else needless switch []
  | c :: cs =>
    if switch.takesArgument then .ok (.one switch (String.ofList (c :: cs)))
    else
      match s.shortSwitch? c with
      | none => needless switch (c :: cs)
      | some next =>
        (if cs.isEmpty then .ok (.bare next) else s.unfoldShort next cs).map (.cons switch)

def unfoldLong (switch : Switch α) (argument : String) : Except Misuse (Unfolded α) :=
  if switch.takesArgument then .ok (.one switch argument) else needless switch argument.toList

def unfold (s : Spec α) (t : Token α) : Except Misuse (Option (Unfolded α)) :=
  match t.meaning with
  | .operand | .separator | .unknown => .ok none
  | .short switch (some text) => (s.unfoldShort switch text).map some
  | .long switch (some argument) => (unfoldLong switch argument).map some
  | .short switch none | .long switch none => .ok (some (.bare switch))

end Spec

/-- What a command line says so far. -/
structure Arguments (α : Type) where
  settings : α
  /-- The operand, and what goes with it; nothing if it was not met yet. -/
  operand : List String
  /-- Words set aside. -/
  strays : List String

namespace Spec

def refuse (s : Spec α) (fault : Misuse) : Except Ending β := .error (.misuse s.program fault)

/-- The settings after a switch took effect. -/
def perform (s : Spec α) (settings : α) (g : Given α) : Except Ending α :=
  match g.switch.effect with
  | .help => .error (.help s.program)
  | .version => .error .version
  | .change f => .ok (f settings)
  | .text f => .ok (f g.argument settings)
  | .choice cases otherwise =>
    match g.argument with
    | .blank => .ok (otherwise settings)
    | .word text =>
      match cases.find? (·.1 = text) with
      | some found => .ok (found.2 settings)
      | none => s.refuse (.notAChoice g.switch.label text (cases.map Prod.fst))

def take (s : Spec α) (a : Arguments α) (given : List (Given α)) :
    Except Ending (Arguments α) := do
  return { a with settings := ← given.foldlM s.perform a.settings }

/-- The tokens that make up the operand, at the front of some that are no switches, and the tokens
behind it. The separator counts as a part of a single word beside it. -/
def operandAt (s : Spec α) : List (Token α) → Option (List String × List (Token α))
  | [] => none
  | t :: ts =>
    let beside (rest : List (Token α)) : List (Token α) :=
      match rest with
      | ⟨_, .separator⟩ :: us => us
      | us => us
    match s.extent, t.meaning, ts with
    | .oneWord, .operand, us => some ([t.word], beside us)
    | .oneWord, .separator, u :: us => some ([u.word], us)
    | .allWords, .operand, us => some (t.word :: us.map Token.word, [])
    | .allWords, .separator, u :: us => some (t.word :: u.word :: us.map Token.word, [])
    | _, _, _ => none

theorem length_of_operandAt {s : Spec α} {ts rest : List (Token α)} {words : List String}
    (h : s.operandAt ts = some (words, rest)) : rest.length < ts.length := by
  cases ts with
  | nil => simp [operandAt] at h
  | cons t ts =>
    simp only [operandAt] at h
    split at h <;> simp only [Option.some.injEq, Prod.mk.injEq, reduceCtorEq] at h
    · obtain ⟨-, rfl⟩ := h
      split <;> simp only [List.length_cons] <;> omega
    all_goals
      obtain ⟨-, rfl⟩ := h
      simp only [List.length_cons, List.length_nil]
      omega

def nextOperand (s : Spec α) (a : Arguments α) (ts : List (Token α)) :
    Option (List String × List (Token α)) :=
  if a.operand.isEmpty then s.operandAt ts else none

theorem length_of_nextOperand {s : Spec α} {a : Arguments α} {ts rest : List (Token α)}
    {words : List String} (h : s.nextOperand a ts = some (words, rest)) :
    rest.length < ts.length := by
  rw [nextOperand] at h
  split at h
  · exact length_of_operandAt h
  · cases h

/-- Reads tokens from left to right. -/
def read (s : Spec α) (tokens : List (Token α)) (a : Arguments α) :
    Except Ending (Arguments α) :=
  match tokens with
  | [] => .ok a
  | t :: ts =>
    match s.unfold t with
    | .error fault => s.refuse fault
    | .ok (some ⟨given, none⟩) => do s.read ts (← s.take a given)
    | .ok (some ⟨given, some switch⟩) =>
      match ts with
      | ⟨word, .operand⟩ :: us => do s.read us (← s.take a (given ++ [⟨switch, .word word⟩]))
      | _ => s.refuse (.missingArgument switch.label)
    | .ok none =>
      match _ : s.nextOperand a (t :: ts) with
      | some (words, rest) => s.read rest { a with operand := words }
      | none => s.read ts { a with strays := a.strays ++ [t.word] }
  termination_by tokens.length
  decreasing_by
    · simp
    · simp only [List.length_cons]
      omega
    · exact length_of_nextOperand ‹_›
    · simp

/-- Reads the words of a command line, starting from default settings. -/
def arguments (s : Spec α) (default : α) (words : List String) : Except Ending (Arguments α) :=
  match s.tokens words with
  | .error fault => s.refuse fault
  | .ok tokens => s.read tokens ⟨default, [], []⟩

end Spec

end DocTree.Cli
