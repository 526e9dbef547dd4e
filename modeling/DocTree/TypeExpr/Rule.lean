/-!
# Rules

A rule tries to read something at the start of a text. Rules choose in order and repeat greedily,
and never go back on either: a rule has one outcome on a text. Two things are particular to
repetition. An item is not tried when no text is left, and nothing follows an item that read
nothing.

Beside its result a rule tells where it, or a rule tried on the way, got stuck. Of all such places
the last one deepest in the text is noted; but once a rule with a name got stuck there, those
without a name do not count any more (`Place.note`).
-/

namespace DocTree.TypeExpr

/-- The place noted for where reading got stuck. -/
structure Place where
  /-- The number of characters that were left; nothing if reading did not get stuck yet. -/
  left : Option Nat
  /-- Whether it was a rule with a name that got stuck. -/
  isNamed : Bool

namespace Place

def start : Place := ⟨none, false⟩

/-- Whether a number of characters left is at least as deep in the text as a place. -/
def isReached (p : Place) (left : Nat) : Bool :=
  match p.left with
  | none => true
  | some other => left ≤ other

def note (isNamed : Bool) (left : Nat) (p : Place) : Place :=
  if p.isReached left && (isNamed || !p.isNamed) then ⟨some left, isNamed⟩ else p

end Place

/-- What a rule answers. -/
structure Reply (α : Type) where
  /-- What was read, and the text behind it. -/
  result : Option (α × List Char)
  /-- What becomes of the place noted before. -/
  trace : Place → Place

def Rule (α : Type) := List Char → Reply α

namespace Rule

def succeed (a : α) : Rule α := fun cs => ⟨some (a, cs), id⟩

def fail : Rule α := fun _ => ⟨none, id⟩

def andThen (r : Rule α) (f : α → Rule β) : Rule β := fun cs =>
  let first := r cs
  match first.result with
  | none => ⟨none, first.trace⟩
  | some (a, rest) =>
    let second := f a rest
    ⟨second.result, second.trace ∘ first.trace⟩

instance : Monad Rule where
  pure := succeed
  bind := andThen

def orElse (r r' : Rule α) : Rule α := fun cs =>
  let first := r cs
  match first.result with
  | some _ => first
  | none =>
    let second := r' cs
    ⟨second.result, second.trace ∘ first.trace⟩

def choice (rs : List (Rule α)) : Rule α := rs.foldr orElse fail

def noting (isNamed : Bool) (r : Rule α) : Rule α := fun cs =>
  let reply := r cs
  match reply.result with
  | some _ => reply
  | none => ⟨none, Place.note isNamed cs.length ∘ reply.trace⟩

def named (r : Rule α) : Rule α := noting true r

def opt (r : Rule α) : Rule (Option α) := fun cs =>
  if cs.isEmpty then ⟨some (none, cs), id⟩
  else
    let reply := r cs
    match reply.result with
    | some (a, rest) => ⟨some (some a, rest), reply.trace⟩
    | none => ⟨some (none, cs), reply.trace⟩

def upTo (r : Rule α) : Nat → Rule (List α)
  | 0 => succeed []
  | n + 1 => fun cs =>
    if cs.isEmpty then ⟨some ([], cs), id⟩
    else
      let reply := r cs
      match reply.result with
      | none => ⟨some ([], cs), reply.trace⟩
      | some (a, rest) =>
        if rest.length = cs.length then ⟨some ([a], rest), reply.trace⟩
        else
          let more := upTo r n rest
          ⟨more.result.map fun m => (a :: m.1, m.2), more.trace ∘ reply.trace⟩

/-- As many repetitions of a rule as there are. Each but the last reads something, so that the
length of the text bounds their number. -/
def many (r : Rule α) : Rule (List α) := fun cs => upTo r cs.length cs

def absent (r : Rule α) : Rule Unit := noting false fun cs =>
  let reply := r cs
  match reply.result with
  | some _ => ⟨none, reply.trace⟩
  | none => ⟨some ((), cs), reply.trace⟩

/-- A given text. -/
def text (w : String) : Rule Unit := fun cs =>
  ⟨(w.toList.isPrefixOf? cs).map fun rest => ((), rest), id⟩

def word (w : String) : Rule Unit := noting false (text w)

/-- The characters of a set, as many as there are. -/
def run (p : Char → Bool) : Rule (List Char) := fun cs =>
  ⟨some (cs.takeWhile p, cs.dropWhile p), id⟩

def one (p : Char → Bool) : Rule Char
  | c :: cs => if p c then ⟨some (c, cs), id⟩ else ⟨none, id⟩
  | [] => ⟨none, id⟩

section Lemmas

variable {α β : Type} (cs : List Char)

@[simp] theorem result_succeed (a : α) : (succeed a cs).result = some (a, cs) := rfl

@[simp] theorem result_pure (a : α) : ((pure a : Rule α) cs).result = some (a, cs) := rfl

@[simp] theorem result_fail : ((fail : Rule α) cs).result = none := rfl

theorem result_andThen (r : Rule α) (f : α → Rule β) :
    (r.andThen f cs).result = (r cs).result.bind fun p => (f p.1 p.2).result := by
  unfold andThen
  cases h : (r cs).result <;> simp [h]

theorem result_bind (r : Rule α) (f : α → Rule β) :
    ((r >>= f) cs).result = (r cs).result.bind fun p => (f p.1 p.2).result :=
  result_andThen cs r f

theorem result_orElse (r r' : Rule α) :
    (r.orElse r' cs).result = (r cs).result.or (r' cs).result := by
  unfold orElse
  cases h : (r cs).result <;> simp [h]

@[simp] theorem result_noting (isNamed : Bool) (r : Rule α) :
    (r.noting isNamed cs).result = (r cs).result := by
  unfold noting
  cases h : (r cs).result <;> simp [h]

@[simp] theorem result_named (r : Rule α) : (r.named cs).result = (r cs).result :=
  result_noting cs true r

@[simp] theorem result_text (w : String) :
    (text w cs).result = (w.toList.isPrefixOf? cs).map fun rest => ((), rest) := rfl

@[simp] theorem result_word (w : String) :
    (word w cs).result = (w.toList.isPrefixOf? cs).map fun rest => ((), rest) :=
  result_noting cs false (text w)

end Lemmas

end Rule

end DocTree.TypeExpr
