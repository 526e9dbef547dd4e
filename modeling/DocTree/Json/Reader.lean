import DocTree.Decimal.Binary
import DocTree.Text.Point
import DocTree.Value

/-!
# Reading JSON

A reader of JSON text that keeps what other readers lose: the order of fields, and the difference
between whole numbers and doubles. `NaN` and the infinities are read too; of two fields with one
name the last value stays in the first one's place. Whole numbers have a limited number of digits.

A fault carries the rest of the text at the point where it was found; `read` turns it into a
position counted in characters, with its line and column.
-/

namespace DocTree.Json

/-- Why a text is no JSON document. -/
inductive Fault where
  | byteOrderMark
  | expectedValue
  | expectedName
  | expectedColon
  | expectedComma
  | extraData
  | openString
  | controlCharacter
  | badEscape
  | badUnicodeEscape
  deriving Repr, DecidableEq

def Fault.message : Fault → String
  | .byteOrderMark => "Unexpected UTF-8 BOM (decode using utf-8-sig)"
  | .expectedValue => "Expecting value"
  | .expectedName => "Expecting property name enclosed in double quotes"
  | .expectedColon => "Expecting ':' delimiter"
  | .expectedComma => "Expecting ',' delimiter"
  | .extraData => "Extra data"
  | .openString => "Unterminated string starting at"
  | .controlCharacter => "Invalid control character at"
  | .badEscape => "Invalid \\escape"
  | .badUnicodeEscape => "Invalid \\uXXXX escape"

/-- Why reading stopped. -/
inductive Stop where
  /-- A fault, and the text from where it was found. -/
  | fault (fault : Fault) (rest : List Char)
  /-- A whole number has too many digits. -/
  | longNumber

abbrev Reading := Except Stop

/-- The four characters that may stand between tokens. -/
def isSpace (c : Char) : Bool := c = ' ' || c = '\t' || c = '\n' || c = '\r'

def skip (cs : List Char) : List Char := cs.dropWhile isSpace

def hexDigit? (c : Char) : Option Nat :=
  if '0' ≤ c ∧ c ≤ '9' then some (c.toNat - '0'.toNat)
  else if 'a' ≤ c ∧ c ≤ 'f' then some (c.toNat - 'a'.toNat + 10)
  else if 'A' ≤ c ∧ c ≤ 'F' then some (c.toNat - 'A'.toNat + 10)
  else none

/-- Four hexadecimal digits, which must not end the text. -/
def codeUnit? : List Char → Option (Nat × List Char)
  | a :: b :: c :: d :: e :: rest => do
    let a ← hexDigit? a
    let b ← hexDigit? b
    let c ← hexDigit? c
    let d ← hexDigit? d
    return (((a * 16 + b) * 16 + c) * 16 + d, e :: rest)
  | _ => none

/-- The second half of a surrogate pair, if an escape for one follows. An escape that stands there
must be well formed whatever it denotes. -/
def lowSurrogate (cs : List Char) : Reading (Option (Nat × List Char)) :=
  match cs with
  | '\\' :: 'u' :: a :: b :: c :: d :: e :: rest =>
    match codeUnit? (a :: b :: c :: d :: e :: rest) with
    | some (low, rest') =>
      .ok (if 0xDC00 ≤ low ∧ low ≤ 0xDFFF then some (low, rest') else none)
    | none => .error (.fault .badUnicodeEscape ('u' :: a :: b :: c :: d :: e :: rest))
  | _ => .ok none

/-- The characters that follow a backslash as they stand for others, with these. -/
def shortEscapes : List (Char × Char) :=
  [('"', '"'), ('\\', '\\'), ('/', '/'), ('b', '\x08'), ('f', '\x0c'), ('n', '\n'), ('r', '\r'),
   ('t', '\t')]

/-- The code point that an escape stands for; `cs` is the text behind the backslash. -/
def escaped (opening cs : List Char) : Reading (Nat × List Char) :=
  match cs with
  | [] => .error (.fault .openString opening)
  | 'u' :: digits =>
    match codeUnit? digits with
    | none => .error (.fault .badUnicodeEscape cs)
    | some (high, rest) =>
      if 0xD800 ≤ high ∧ high ≤ 0xDBFF then do
        match ← lowSurrogate rest with
        | some (low, rest') =>
          return (0x10000 + (high - 0xD800) * 0x400 + (low - 0xDC00), rest')
        | none => return (high, rest)
      else .ok (high, rest)
  | c :: rest =>
    match shortEscapes.find? (·.1 = c) with
    | some short => .ok (short.2.toNat, rest)
    | none => .error (.fault .badEscape ('\\' :: cs))

/-- The rest of a string whose opening quote begins `opening`; `read` holds the code points
read of it, the last one first. -/
def stringTail (opening : List Char) : Nat → List Nat → List Char → Reading (String × List Char)
  | 0, _, _ => .error (.fault .openString opening)
  | fuel + 1, read, cs =>
    match cs with
    | [] => .error (.fault .openString opening)
    | '"' :: rest => .ok (Text.ofPoints read.reverse, rest)
    | '\\' :: rest => do
      let (n, rest) ← escaped opening rest
      stringTail opening fuel (n :: read) rest
    | c :: rest =>
      if c.val ≤ 0x1f then .error (.fault .controlCharacter (c :: rest))
      else stringTail opening fuel (c.toNat :: read) rest

def string (cs : List Char) : Reading (String × List Char) :=
  stringTail ('"' :: cs) (cs.length + 1) [] cs

def isDigit (c : Char) : Bool := '0' ≤ c && c ≤ '9'

def wholePart? : List Char → Option (List Char × List Char)
  | '0' :: rest => some (['0'], rest)
  | c :: rest =>
    if isDigit c then some (c :: rest.takeWhile isDigit, rest.dropWhile isDigit) else none
  | [] => none

/-- The digits behind a point, if a digit follows it. -/
def fraction (cs : List Char) : List Char × List Char :=
  match cs with
  | '.' :: rest =>
    match rest.takeWhile isDigit with
    | [] => ([], cs)
    | digits => (digits, rest.dropWhile isDigit)
  | _ => ([], cs)

/-- An exponent with its optional sign, if it has a digit. -/
def exponent (cs : List Char) : Option Int × List Char :=
  let read (sign : Int) (rest : List Char) : Option Int × List Char :=
    match rest.takeWhile isDigit with
    | [] => (none, cs)
    | digits => (some (sign * Decimal.natOf digits), rest.dropWhile isDigit)
  match cs with
  | c :: rest =>
    if c = 'e' ∨ c = 'E' then
      match rest with
      | '-' :: rest => read (-1) rest
      | '+' :: rest => read 1 rest
      | _ => read 1 rest
    else (none, cs)
  | [] => (none, cs)

/-- A number: whole unless it has a fraction or an exponent. -/
def number (cs : List Char) : Reading (Value × List Char) :=
  let (negative, unsigned) : Bool × List Char :=
    match cs with
    | '-' :: rest => (true, rest)
    | _ => (false, cs)
  match wholePart? unsigned with
  | none => .error (.fault .expectedValue cs)
  | some (whole, rest) =>
    let (decimals, rest) := fraction rest
    let (power, rest) := exponent rest
    if decimals.isEmpty && power.isNone then
      match Decimal.whole? whole with
      | none => .error .longNumber
      | some n => .ok (.int (if negative then -n else n), rest)
    else
      .ok (.float (Decimal.toFloat negative (Decimal.natOf (whole ++ decimals))
        (power.getD 0 - decimals.length)), rest)

def words : List (String × Value) :=
  [("null", .null), ("true", .bool true), ("false", .bool false),
   ("NaN", .float (0.0 / 0.0)), ("Infinity", .float (1.0 / 0.0)),
   ("-Infinity", .float (-1.0 / 0.0))]

def scalar (cs : List Char) : Reading (Value × List Char) :=
  match words.findSome? fun w => (w.1.toList.isPrefixOf? cs).map (w.2, ·) with
  | some found => .ok found
  | none => number cs

mutual

/-- A value. The first argument bounds the number of steps. -/
def value : Nat → List Char → Reading (Value × List Char)
  | 0, cs => .error (.fault .expectedValue cs)
  | fuel + 1, cs =>
    match cs with
    | '"' :: rest => do
      let (s, rest) ← string rest
      return (.str s, rest)
    | '[' :: rest =>
      match skip rest with
      | ']' :: rest => .ok (.list [], rest)
      | rest => items fuel [] rest
    | '{' :: rest =>
      match skip rest with
      | '}' :: rest => .ok (.object [], rest)
      | rest => fields fuel [] rest
    | _ => scalar cs

/-- The rest of a list from an item on; `read` holds the items before it, the last one first. -/
def items : Nat → List Value → List Char → Reading (Value × List Char)
  | 0, _, cs => .error (.fault .expectedValue cs)
  | fuel + 1, read, cs => do
    let (v, rest) ← value fuel cs
    match skip rest with
    | ']' :: rest => return (.list (v :: read).reverse, rest)
    | ',' :: rest => items fuel (v :: read) (skip rest)
    | rest => throw (.fault .expectedComma rest)

/-- The rest of an object from a field on; `read` holds the fields before it. -/
def fields : Nat → List (String × Value) → List Char → Reading (Value × List Char)
  | 0, _, cs => .error (.fault .expectedValue cs)
  | fuel + 1, read, cs =>
    match cs with
    | '"' :: rest => do
      let (key, rest) ← string rest
      match skip rest with
      | ':' :: rest =>
        let (v, rest) ← value fuel (skip rest)
        let read := Value.writeField read key v
        match skip rest with
        | '}' :: rest => return (.object read, rest)
        | ',' :: rest => fields fuel read (skip rest)
        | rest => throw (.fault .expectedComma rest)
      | rest => throw (.fault .expectedColon rest)
    | _ => .error (.fault .expectedName cs)

end

/-- A whole document. -/
def document (cs : List Char) : Reading Value :=
  match cs with
  | '\ufeff' :: _ => .error (.fault .byteOrderMark cs)
  | _ => do
    let (v, rest) ← value (2 * cs.length + 2) (skip cs)
    match skip rest with
    | [] => return v
    | rest => throw (.fault .extraData rest)

/-- The message for a fault at character `at` of the text: words, line, column and position. -/
def faultText (text : List Char) (position : Nat) (fault : Fault) : String :=
  let before := text.take position
  let line := before.count '\n' + 1
  let column := (before.reverse.takeWhile (· ≠ '\n')).length + 1
  s!"{fault.message}: line {line} column {column} (char {position})"

/-- Why a text was not read. -/
inductive Failure where
  /-- The text is no JSON document; the reason says where. -/
  | malformed (reason : String)
  | longNumber
  deriving DecidableEq, Repr

/-- Reads a document, or says what is wrong and where. -/
def read (s : String) : Except Failure Value :=
  let text := s.toList
  match document text with
  | .ok v => .ok v
  | .error .longNumber => .error .longNumber
  | .error (.fault fault rest) =>
    .error (.malformed (faultText text (text.length - rest.length) fault))

end DocTree.Json
