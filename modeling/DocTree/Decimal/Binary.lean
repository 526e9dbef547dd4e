/-!
# Doubles as exact numbers

A finite double is `m * 2 ^ q` for an integer `m` below `2 ^ 53` and an exponent `q` from `-1074`
up; `Binary.ofFloat` reads both off the bits. In the other direction `nearest` rounds a positive
fraction to the closest double, a tie going to the even neighbour.
-/

namespace DocTree.Decimal

abbrev pow2 (n : Nat) : Nat := Nat.pow 2 n

abbrev pow10 (n : Nat) : Nat := Nat.pow 10 n

/-- What the bits of a double say. -/
inductive Binary where
  | finite (negative : Bool) (mantissa : Nat) (exponent : Int)
  | infinite (negative : Bool)
  | undefined
  deriving Repr, DecidableEq

/-- The fields of the 64-bit format: sign, eleven bits of exponent, 52 bits of fraction. -/
def Binary.ofBits (bits : Nat) : Binary :=
  let negative : Bool := bits / pow2 63 % 2 = 1
  let biased : Nat := bits / pow2 52 % pow2 11
  let fraction : Nat := bits % pow2 52
  if biased = 2047 then
    if fraction = 0 then .infinite negative else .undefined
  else if biased = 0 then
    .finite negative fraction (-1074)
  else
    .finite negative (pow2 52 + fraction) ((biased : Int) - 1075)

def Binary.ofFloat (x : Float) : Binary := .ofBits x.toBits.toNat

/-- The number that a run of decimal digits denotes. -/
def natOf (digits : List Char) : Nat :=
  digits.foldl (fun n c => 10 * n + (c.toNat - '0'.toNat)) 0

def digitLimit : Nat := 4300

/-- The whole number that a run of decimal digits denotes, unless there are too many of them. -/
def whole? (digits : List Char) : Option Nat :=
  if digits.length ≤ digitLimit then some (natOf digits) else none

def roundHalfEven (num den : Nat) : Nat :=
  let q := num / den
  let twice := 2 * (num % den)
  if twice < den then q
  else if den < twice then q + 1
  else q + q % 2

/-- The exponent `q` that leaves `num / (den * 2 ^ q)` with 53 bits, or the least one there is. -/
def exponentFor (num den : Nat) : Int :=
  let guess : Int := (num.log2 : Int) - den.log2 - 52
  let large := num * pow2 (-guess).toNat
  let small := den * pow2 (guess.toNat + 52)
  max (if large < small then guess - 1 else guess) (-1074)

def nearestBits (num den : Nat) : Nat :=
  let q := exponentFor num den
  let m := roundHalfEven (num * pow2 (-q).toNat) (den * pow2 q.toNat)
  min ((q + 1074).toNat * pow2 52 + m) (2047 * pow2 52)

def nearest (negative : Bool) (num den : Nat) : Float :=
  let sign := if negative then pow2 63 else 0
  Float.ofBits (UInt64.ofNat (sign + if num = 0 then 0 else nearestBits num den))

/-- The double closest to `digits * 10 ^ exponent`. Powers far outside the range of doubles are cut
off first, so that no large power is ever computed. -/
def toFloat (negative : Bool) (digits : Nat) (exponent : Int) : Float :=
  let magnitude := (Nat.toDigits 10 digits).length + exponent
  if digits = 0 ∨ magnitude < -400 then nearest negative 0 1
  else if 400 < magnitude then nearest negative (pow10 400) 1
  else nearest negative (digits * pow10 exponent.toNat) (pow10 (-exponent).toNat)

end DocTree.Decimal
