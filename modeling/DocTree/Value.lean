import DocTree.Decimal.Binary
import DocTree.Text.Point

/-!
# Values

The values that documents and options are made of: JSON with whole numbers of any size kept apart
from doubles, and with the fields of an object in the order written. Two notions are used all over:
`isTruthy`, which says when an optional part counts as given, and `same`, under which numbers of
different kinds are equal when they denote the same number.
-/

namespace DocTree

/-- A JSON value. -/
inductive Value where
  | null
  | bool (b : Bool)
  | int (n : Int)
  | float (x : Float)
  | str (s : String)
  | list (items : List Value)
  | object (fields : List (String × Value))
  deriving Inhabited

namespace Value

def kindName : Value → String
  | null => "NoneType"
  | bool _ => "bool"
  | int _ => "int"
  | float _ => "float"
  | str _ => "str"
  | list _ => "list"
  | object _ => "dict"

def string? : Value → Option String
  | str s => some s
  | _ => none

def isTruthy : Value → Bool
  | null => false
  | bool b => b
  | int n => n ≠ 0
  | float x => !(x == 0.0)
  | str s => !s.isEmpty
  | list items => !items.isEmpty
  | object fields => !fields.isEmpty

/-- The parts of a value that can be gone through one by one: items, code points, or names
of fields. -/
def parts? : Value → Option (List Value)
  | list items => some items
  | str s => some ((Text.points s).map fun n => str (Text.ofPoints [n]))
  | object fields => some (fields.map fun f => str f.1)
  | _ => none

/-- The value of the field `key` in a list of fields. -/
def lookup (key : String) : List (String × Value) → Option Value
  | [] => none
  | f :: fs => if f.1 = key then some f.2 else lookup key fs

def writeField (fields : List (String × Value)) (key : String) (v : Value) :
    List (String × Value) :=
  match fields with
  | [] => [(key, v)]
  | f :: fs => if f.1 = key then (key, v) :: fs else f :: writeField fs key v

def number? : Value → Option (Int × Nat)
  | bool b => some (if b then 1 else 0, 0)
  | int n => some (n, 0)
  | float x =>
    match Decimal.Binary.ofFloat x with
    | .finite negative m q =>
      let n : Int := m * Decimal.pow2 q.toNat
      some (if negative then -n else n, (-q).toNat)
    | _ => none
  | _ => none

/-- Equality of numbers, whatever their kinds; infinities equal themselves and undefined numbers
nothing. -/
def sameNumber (a b : Value) : Bool :=
  match a, b with
  | float x, float y => x == y
  | _, _ =>
    match number? a, number? b with
    | some (n, k), some (m, l) => n * Decimal.pow2 l = m * Decimal.pow2 k
    | _, _ => false

mutual

/-- Equality in which numbers are compared as numbers, truth values count as one and zero, and the
order of fields does not matter. -/
def same : Value → Value → Bool
  | null, null => true
  | str s, str t => s == t
  | list xs, list ys => sameItems xs ys
  | object fs, object gs => fs.length == gs.length && sameFields fs gs
  | a, b => sameNumber a b

def sameItems : List Value → List Value → Bool
  | [], [] => true
  | x :: xs, y :: ys => same x y && sameItems xs ys
  | _, _ => false

def sameFields : List (String × Value) → List (String × Value) → Bool
  | [], _ => true
  | (k, v) :: fs, gs =>
    (match lookup k gs with
      | some w => same v w
      | none => false) && sameFields fs gs

end

@[simp] theorem string?_str (s : String) : string? (str s) = some s := rfl

@[simp] theorem same_str (s t : String) : same (str s) (str t) = (s == t) := by
  rw [same]

theorem same_str_right {v : Value} {t : String} : same v (str t) = true ↔ v = str t := by
  cases v <;> simp [same, sameNumber, number?]

end Value

end DocTree
