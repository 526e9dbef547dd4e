import DocTree.Text.Point
import DocTree.Text.Printable

/-!
# Quoted text

Text as messages quote it: between single quotes, or between double quotes if that saves escaping,
with line feed, carriage return, tab, the backslash and the quote in use escaped by a backslash, and
every other unprintable character, or half of a surrogate pair, written as a hexadecimal escape.
-/

namespace DocTree.Text

/-- A number in lower-case hexadecimal, padded with zeros to `width` digits. -/
def hex (width n : Nat) : List Char :=
  let digits := Nat.toDigits 16 n
  List.replicate (width - digits.length) '0' ++ digits

def escapePoint (n : Nat) : List Char :=
  if n < 0x100 then '\\' :: 'x' :: hex 2 n
  else if n < 0x10000 then '\\' :: 'u' :: hex 4 n
  else '\\' :: 'U' :: hex 8 n

def quoteChar (quote c : Char) : List Char :=
  if c = quote ∨ c = '\\' then ['\\', c]
  else if c = '\n' then ['\\', 'n']
  else if c = '\r' then ['\\', 'r']
  else if c = '\t' then ['\\', 't']
  else if isPrintable c then [c]
  else escapePoint c.toNat

def quotePoint (quote : Char) (n : Nat) : List Char :=
  if isHalf n then escapePoint n else quoteChar quote (Char.ofNat n)

def quoteFor (cs : List Char) : Char :=
  if cs.contains '\'' && !cs.contains '"' then '"' else '\''

/-- Text in characters only: halves of surrogate pairs are written as escapes. -/
def shown (s : String) : String :=
  String.ofList ((points s).flatMap fun n => if isHalf n then escapePoint n else [Char.ofNat n])

def quoted (s : String) : String :=
  let quote := quoteFor s.toList
  String.ofList (quote :: (points s).flatMap (quotePoint quote) ++ [quote])

end DocTree.Text
