import DocTree.Decimal.Shortest

/-!
# Decimal notation

How a number's digits are laid out: positionally while the leading digit's place is in a window of
exponents, with a mark and a signed exponent outside of it. The choices are one record, `Style`;
`plain` is the style of all numbers this library writes.
-/

namespace DocTree.Decimal

/-- The choices in writing a number. -/
structure Style where
  /-- The least exponent written positionally. -/
  least : Int
  /-- The first exponent that is too large for it. -/
  bound : Int
  /-- What follows a whole number in positional notation. -/
  whole : String
  /-- The least number of digits of a written exponent. -/
  exponentDigits : Nat
  infinite : String
  undefined : String

/-- Exponents from `-4` to `15` are positional, a whole number ends in `.0`, an exponent has a sign
and at least two digits. -/
def plain : Style where
  least := -4
  bound := 16
  whole := ".0"
  exponentDigits := 2
  infinite := "inf"
  undefined := "nan"

def zeros (n : Nat) : String := String.ofList (List.replicate n '0')

def digitsOf (n : Nat) : List Char := Nat.toDigits 10 n

def Style.exponentText (s : Style) (e : Int) : String :=
  let digits := String.ofList (digitsOf e.natAbs)
  (if e < 0 then "-" else "+") ++ zeros (s.exponentDigits - digits.length) ++ digits

/-- A positive decimal without trailing zeros. -/
def Style.write (s : Style) (d : Scaled) : String :=
  let digits := digitsOf d.digits
  let text := String.ofList digits
  let count : Int := digits.length
  let leading := d.exponent + count - 1
  if leading < s.least ∨ s.bound ≤ leading then
    let rest := digits.drop 1
    String.ofList (digits.take 1) ++ (if rest.isEmpty then "" else "." ++ String.ofList rest)
      ++ "e" ++ s.exponentText leading
  else if 0 ≤ d.exponent then
    text ++ zeros d.exponent.toNat ++ s.whole
  else if 0 ≤ leading then
    let places := (leading + 1).toNat
    String.ofList (digits.take places) ++ "." ++ String.ofList (digits.drop places)
  else
    "0." ++ zeros (-leading - 1).toNat ++ text

def Style.format (s : Style) (x : Float) : String :=
  match Binary.ofFloat x with
  | .undefined => s.undefined
  | .infinite negative => (if negative then "-" else "") ++ s.infinite
  | .finite negative m q =>
    (if negative then "-" else "") ++
      if m = 0 then "0" ++ s.whole else s.write (shortest m q)

end DocTree.Decimal
