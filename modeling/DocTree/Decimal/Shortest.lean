import DocTree.Decimal.Binary

/-!
# The fewest digits that read back

A positive double `m * 2 ^ q` is the rounded form of every real in an interval around it, whose ends
belong to it exactly if `m` is even. `shortest` walks the decimal grids from coarse to fine and
stops at the first that has a point in this interval; of two such points it takes the nearer, of
two equally near ones the even one. Everything is computed on natural numbers.
-/

namespace DocTree.Decimal

/-- A decimal number `digits * 10 ^ exponent`. -/
structure Scaled where
  digits : Nat
  exponent : Int
  deriving Repr, DecidableEq

/-- A positive double seen on a decimal grid. All members are in one unit, in which the grid's
points are the multiples of `step`. -/
structure Window where
  value : Nat
  low : Nat
  high : Nat
  step : Nat
  closed : Bool

/-- The interval of reals that round to `m * 2 ^ q`, on the grid of multiples of `10 ^ p`. The gap
below a power of two is half as wide as the one above. -/
def Window.of (m : Nat) (q p : Int) : Window :=
  let unit := pow2 (q - 2).toNat * pow10 (-p).toNat
  let below := if m = pow2 52 ∧ -1074 < q then 1 else 2
  { value := 4 * m * unit
    low := (4 * m - below) * unit
    high := (4 * m + 2) * unit
    step := pow10 p.toNat * pow2 (2 - q).toNat
    closed := m % 2 = 0 }

/-- Whether the `k`-th point of the grid rounds to the double. -/
def Window.holds (w : Window) (k : Nat) : Bool :=
  let x := k * w.step
  if w.closed then w.low ≤ x ∧ x ≤ w.high else w.low < x ∧ x < w.high

/-- The better of the two grid points around the double, if one of them rounds to it. -/
def Window.pick (w : Window) : Option Nat :=
  let k := w.value / w.step
  match w.holds k, w.holds (k + 1) with
  | false, false => none
  | true, false => some k
  | false, true => some (k + 1)
  | true, true =>
    let below := w.value - k * w.step
    let above := (k + 1) * w.step - w.value
    if below < above then some k
    else if above < below then some (k + 1)
    else some (k + k % 2)

def leadingExponent (m : Nat) (q : Int) : Int :=
  let num := m * pow2 q.toNat
  let den := pow2 (-q).toNat
  if den ≤ num then
    ((Nat.toDigits 10 (num / den)).length : Int) - 1
  else
    let c := (den + num - 1) / num - 1
    if c = 0 then 0 else -((Nat.toDigits 10 c).length : Int)

def firstGrid (m : Nat) (q : Int) : Nat → Int → Scaled
  | 0, p => ⟨(Window.of m q p).value / (Window.of m q p).step, p⟩
  | n + 1, p =>
    match (Window.of m q p).pick with
    | some k => ⟨k, p⟩
    | none => firstGrid m q n (p - 1)

def stripZeros : Nat → Scaled → Scaled
  | 0, d => d
  | n + 1, d =>
    if d.digits % 10 = 0 ∧ d.digits ≠ 0 then stripZeros n ⟨d.digits / 10, d.exponent + 1⟩ else d

/-- The shortest decimal that rounds to the positive double `m * 2 ^ q`. Seventeen digits always
suffice. -/
def shortest (m : Nat) (q : Int) : Scaled :=
  stripZeros 20 (firstGrid m q 17 (leadingExponent m q))

end DocTree.Decimal
