import DocTree.Text.Blank

/-!
# Kinds

The kind of a node is a set of flags. A single flag, and each of four groups of flags, has a name;
`Kind.label` gives the name of a kind in lower case, and `Kind.ofLabel?` reads a label in any case,
with blanks, hyphens or underscores between its words.
-/

namespace DocTree

structure Kind where
  bits : Nat
  deriving DecidableEq, Repr, Inhabited

namespace Kind

def project : Kind := ⟨0x1⟩
def module : Kind := ⟨0x2⟩
def nameSpace : Kind := ⟨0x4⟩
def enumeration : Kind := ⟨0x8⟩
def enumMember : Kind := ⟨0x10⟩
def classKind : Kind := ⟨0x80⟩
def interface : Kind := ⟨0x100⟩
def property : Kind := ⟨0x400⟩
def callSignature : Kind := ⟨0x1000⟩
def constructorSignature : Kind := ⟨0x4000⟩
def parameter : Kind := ⟨0x8000⟩
def typeLiteral : Kind := ⟨0x10000⟩
def typeParameter : Kind := ⟨0x20000⟩

def flags : List (String × Nat) :=
  [("PROJECT", 0x1), ("MODULE", 0x2), ("NAMESPACE", 0x4), ("ENUM", 0x8), ("ENUM_MEMBER", 0x10),
   ("VARIABLE", 0x20), ("FUNCTION", 0x40), ("CLASS", 0x80), ("INTERFACE", 0x100),
   ("CONSTRUCTOR", 0x200), ("PROPERTY", 0x400), ("METHOD", 0x800), ("CALL_SIGNATURE", 0x1000),
   ("INDEX_SIGNATURE", 0x2000), ("CONSTRUCTOR_SIGNATURE", 0x4000), ("PARAMETER", 0x8000),
   ("TYPE_LITERAL", 0x10000), ("TYPE_PARAMETER", 0x20000), ("ACCESSOR", 0x40000),
   ("GET_SIGNATURE", 0x80000), ("SET_SIGNATURE", 0x100000), ("TYPE_ALIAS", 0x200000),
   ("REFERENCE", 0x400000)]

def groups : List (String × Nat) :=
  [("SIGNATURE", 0x187000), ("CLASS_OR_INTERFACE", 0x180), ("SOME_MODULE", 0x6),
   ("SOME_TYPE", 0x230100)]

def meets (k mask : Kind) : Bool := k.bits &&& mask.bits ≠ 0

def width : Nat := 23

/-- The kind of a number. A negative number counts down from the first power of two that is above
every single flag and, unless it counts down to nothing, not below the number itself. -/
def ofInt : Int → Kind
  | .ofNat n => ⟨n⟩
  | .negSucc n =>
    if n < Nat.pow 2 width then ⟨Nat.pow 2 width - (n + 1)⟩
    else ⟨Nat.pow 2 (Nat.log2 (n + 1) + 1) - (n + 1)⟩

def held (k : Kind) : List (String × Nat) := flags.filter fun flag => k.bits &&& flag.2 = flag.2

/-- What is left of a kind without its single flags. -/
def unnamed (k : Kind) : Nat := k.bits - (k.held.map (·.2)).foldl (· + ·) 0

/-- The names of what a kind holds: its single flags from the lowest up, and the rest of it as a
number. -/
def partNames (k : Kind) : List String :=
  k.held.map (·.1) ++ if k.unnamed = 0 then [] else [toString k.unnamed]

/-- The name of a kind: its own, or the names of its parts with bars between them. A kind without
single flags is named by its number. -/
def name (k : Kind) : String :=
  match (flags ++ groups).find? (·.2 = k.bits) with
  | some named => named.1
  | none =>
    if k.held.isEmpty then toString k.bits else "|".intercalate k.partNames

def labelChar (c : Char) : Char := if c = '_' then ' ' else c.toLower

/-- The name in lower case, with spaces for underscores. -/
def label (k : Kind) : String := String.ofList (k.name.toList.map labelChar)

def capitals : List (Char × List Char) :=
  [('ß', ['S', 'S']), ('ı', ['I']), ('ſ', ['S']), ('ﬀ', ['F', 'F']), ('ﬁ', ['F', 'I']),
   ('ﬂ', ['F', 'L']), ('ﬃ', ['F', 'F', 'I']), ('ﬄ', ['F', 'F', 'L']), ('ﬅ', ['S', 'T']),
   ('ﬆ', ['S', 'T'])]

/-- The capitals of a character, as far as they are in ASCII; names have no other letters. -/
def capital (c : Char) : List Char :=
  match capitals.find? (·.1 = c) with
  | some entry => entry.2
  | none => [c.toUpper]

def nameChar (c : Char) : List Char :=
  if c = ' ' ∨ c = '-' then ['_'] else capital c

def ofLabel? (label : String) : Option Kind :=
  let key := String.ofList ((Text.trim label.toList).flatMap nameChar)
  ((flags ++ groups).find? (·.1 = key)).map (⟨·.2⟩)

end Kind

end DocTree
