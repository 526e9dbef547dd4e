import DocTree.Value

/-!
# Keys

What tells values apart in a table. Text is its own key; numbers that denote the same number have
one key, whatever their kinds, and truth values count as one and zero. Lists and objects have none.
-/

namespace DocTree.Value

/-- What stands for a value in a table. -/
inductive Key where
  | null
  /-- The number `num / 2 ^ shift`, in lowest terms. -/
  | number (num : Int) (shift : Nat)
  | infinite (negative : Bool)
  | undefined
  | text (s : String)
  deriving DecidableEq, Repr

def lowest (num : Int) : Nat → Key
  | 0 => .number num 0
  | shift + 1 => if num % 2 = 0 then lowest (num / 2) shift else .number num (shift + 1)

def specialKey (x : Float) : Key :=
  match Decimal.Binary.ofFloat x with
  | .infinite negative => .infinite negative
  | _ => .undefined

def key? : Value → Option Key
  | null => some .null
  | str s => some (.text s)
  | float x =>
    match number? (float x) with
    | some (num, shift) => some (lowest num shift)
    | none => some (specialKey x)
  | list _ | object _ => none
  | v => (number? v).map fun n => lowest n.1 n.2

@[simp] theorem key?_str (s : String) : key? (str s) = some (.text s) := rfl

end DocTree.Value
