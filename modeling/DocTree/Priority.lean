import DocTree.Value.Key

/-!
# Priorities

Whoever has the higher priority goes first, equals in the order given. A priority is a number; the
infinite ones lie beyond all others, and an undefined one is neither above nor below any.

`Priority.inOrder` puts items in order. It keeps the longest run in order at the front, and finds
the place of each item behind it by bisection. This settles where items of undefined priority come
to stand.
-/

namespace DocTree

inductive Priority where
  /-- The number `num / 2 ^ shift`. -/
  | number (num : Int) (shift : Nat)
  | infinite (negative : Bool)
  | undefined
  deriving Repr, DecidableEq

namespace Priority

def ofValue? (v : Value) : Option Priority :=
  match v.key? with
  | some (.number num shift) => some (.number num shift)
  | some (.infinite negative) => some (.infinite negative)
  | some .undefined => some .undefined
  | _ => none

def above : Priority → Priority → Bool
  | number n k, number m l => m * Decimal.pow2 k < n * Decimal.pow2 l
  | infinite negative, number .. => !negative
  | number .., infinite negative => negative
  | infinite p, infinite q => q && !p
  | undefined, _ | _, undefined => false

def equals (p q : Priority) : Bool := p ≠ undefined && p = q

/-- Whether the item at place `x.2` with priority `x.1` goes before the one at place `y.2`. -/
def before (x y : Priority × Nat) : Bool := x.1.above y.1 || (x.1.equals y.1 && x.2 < y.2)

section Order

variable (less : α → α → Bool)

/-- The items at the front that are in order, behind `a`, and all others. -/
def rising (a : α) : List α → List α × List α
  | [] => ([], [])
  | b :: bs =>
    if less b a then ([], b :: bs)
    else
      let (run, rest) := rising b bs
      (b :: run, rest)

/-- The items at the front that are in reverse order, behind `a`, and all others. -/
def falling (a : α) : List α → List α × List α
  | [] => ([], [])
  | b :: bs =>
    if less b a then
      let (run, rest) := falling b bs
      (b :: run, rest)
    else ([], b :: bs)

/-- The place of an item among those from `low` to `high`, in at most `n` steps: behind all that it
does not go before. -/
def bisect (a : α) (sorted : List α) : Nat → Nat → Nat → Nat
  | 0, low, _ => low
  | n + 1, low, high =>
    if low < high then
      let middle := low + (high - low) / 2
      match sorted[middle]? with
      | none => low
      | some b =>
        if less a b then bisect a sorted n low middle else bisect a sorted n (middle + 1) high
    else low

def place (sorted : List α) (a : α) : List α :=
  let spot := bisect less a sorted sorted.length 0 sorted.length
  sorted.take spot ++ a :: sorted.drop spot

def sort : List α → List α
  | [] => []
  | [a] => [a]
  | a :: b :: bs =>
    if less b a then
      let (run, rest) := falling less b bs
      rest.foldl (place less) (a :: b :: run).reverse
    else
      let (run, rest) := rising less b bs
      rest.foldl (place less) (a :: b :: run)

end Order

def inOrder (items : List (Priority × α)) : List α :=
  let keyed := items.zipIdx.map fun item => ((item.1.1, item.2), item.1.2)
  (sort (fun x y => before x.1 y.1) keyed).map Prod.snd

@[simp] theorem inOrder_nil : inOrder ([] : List (Priority × α)) = [] := rfl

@[simp] theorem inOrder_singleton (p : Priority) (a : α) : inOrder [(p, a)] = [a] := rfl

end Priority

end DocTree
