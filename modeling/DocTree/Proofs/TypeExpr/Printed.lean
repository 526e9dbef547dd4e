import DocTree.Decimal.Notation
import DocTree.Proofs.TypeExpr.Alternatives

/-!
# What printed literals and names are read as

* `ReadAs rule stops cs e` : from any level that is high enough, a rule reads `cs` as `e`, whatever follows of `stops`;
* `reads_string`, `reads_int`, `reads_keyword` : literals; `integer` : a whole number may have too many digits;
* `reads_name`, `reads_query` : names, and the types of what they name.
-/

namespace DocTree.TypeExpr

open Rule Grammar Text

variable {l : Level} {cs rest : List Char} {e : Expr} {w : String}

/-- From any level that is high enough, a rule reads a text as an expression, whatever follows of some characters. -/
def ReadAs (rule : Level → Rule Expr) (stops cs : List Char) (e : Expr) : Prop :=
  ∀ ⦃n : Nat⦄ ⦃rest : List Char⦄, cs.length ≤ n → Fence stops rest → (rule (level n)).Reads (cs ++ rest) e rest

/-! ## Literals -/

theorem literalTail_append {quote : Char} (plain : ∀ c ∈ cs, c ≠ quote ∧ c ≠ '\\') (rest : List Char)
    (slash : quote ≠ '\\') : literalTail quote (cs ++ quote :: rest) = some (cs, rest) := by
  induction cs with
  | nil => simp [literalTail, slash]
  | cons c cs ih =>
    obtain ⟨other, solid⟩ := plain c List.mem_cons_self
    have tail := ih fun d mem => plain d (List.mem_cons_of_mem c mem)
    simp [literalTail, other, solid, tail]

/-- A string without quotes and backslashes is read from between quotes as it is. -/
theorem reads_string {text : String} (quotes : '"' ∉ text.toList) (slashes : '\\' ∉ text.toList) :
    ReadAs primary afterPrimary ('"' :: (text.toList ++ ['"'])) (.literal (.str text)) := by
  intro n rest _ _
  have tail : literalTail '"' (text.toList ++ '"' :: rest) = some (text.toList, rest) := by
    refine literalTail_append (fun c mem => ⟨?_, ?_⟩) rest (by decide)
    · rintro rfl
      exact quotes mem
    · rintro rfl
      exact slashes mem
  have quoted : (quotedBy '"').Reads ('"' :: (text.toList ++ '"' :: rest)) (.str text) rest := by
    unfold Reads quotedBy
    simp only [if_true, tail, Option.map_some, String.ofList_toList]
  rw [List.cons_append, List.append_assoc, List.singleton_append]
  exact primary_string (reads_literal (reads_named.2 quoted.orElse))

/-! ### Numbers -/

/-- What a whole number is read as: there is a limit to its digits. -/
def integer (n : Int) : Expr :=
  if (Decimal.digitsOf n.natAbs).length ≤ Decimal.digitLimit then .literal (.int n) else .longNumber

theorem toList_toString (n : Int) :
    (toString n).toList = (if n < 0 then ['-'] else []) ++ Decimal.digitsOf n.natAbs := by
  have digits : ∀ m : Nat, m.repr.toList = Decimal.digitsOf m := fun m => by
    rw [Nat.repr_eq_ofList_toDigits, String.toList_ofList]
    rfl
  cases n with
  | ofNat m =>
    have whole : ¬Int.ofNat m < 0 := Int.not_lt.2 (Int.natCast_nonneg m)
    rw [if_neg whole]
    exact digits m
  | negSucc m =>
    rw [if_pos (Int.negSucc_lt_zero m)]
    show ("-" ++ (m + 1).repr).toList = _
    rw [String.toList_append, digits]
    rfl

theorem exists_digitsOf (m : Nat) :
    ∃ d ds, Decimal.digitsOf m = d :: ds ∧ ∀ c ∈ d :: ds, c.isDigit = true := by
  have all : ∀ c ∈ Decimal.digitsOf m, c.isDigit = true := fun c mem =>
    Nat.isDigit_of_mem_toDigits (by decide) (by decide) mem
  cases eq : Decimal.digitsOf m with
  | nil => exact absurd eq Nat.toDigits_ne_nil
  | cons d ds => exact ⟨d, ds, rfl, eq ▸ all⟩

theorem exists_toString (n : Int) : ∃ c more, (toString n).toList = c :: more ∧ (c = '-' ∨ c.isDigit = true) := by
  obtain ⟨d, ds, eq, all⟩ := exists_digitsOf n.natAbs
  rw [toList_toString, eq]
  by_cases negative : n < 0
  · rw [if_pos negative]
    exact ⟨'-', d :: ds, rfl, Or.inl rfl⟩
  · rw [if_neg negative]
    exact ⟨d, ds, rfl, Or.inr (all d List.mem_cons_self)⟩

theorem isDigit_of_stop {c : Char} (h : isIdentifierChar c = false) : c.isDigit = false := by
  unfold isIdentifierChar Char.isAlphanum at h
  simp only [Bool.or_eq_false_iff] at h
  exact h.1.1.2

theorem reads_digits (m : Nat) (stop : ∀ c ∈ rest.head?, isIdentifierChar c = false) :
    digits.Reads (Decimal.digitsOf m ++ rest) (Decimal.digitsOf m) rest := by
  obtain ⟨d, ds, eq, all⟩ := exists_digitsOf m
  have more : (run Char.isDigit).Reads (ds ++ rest) ds rest :=
    reads_run (fun c mem => all c (List.mem_cons_of_mem d mem)) fun c head => isDigit_of_stop (stop c head)
  rw [eq]
  exact (reads_one (all d List.mem_cons_self)).bind (more.bind (reads_pure ..))

theorem natOf_digitsOf (m : Nat) : Decimal.natOf (Decimal.digitsOf m) = m :=
  Nat.ofDigitChars_toDigits (by decide) (by decide)

theorem reads_sign (n : Int) (rest : List Char) : ∃ sign : Option Unit,
    (opt (text "-")).Reads ((toString n).toList ++ rest) sign (Decimal.digitsOf n.natAbs ++ rest) ∧
      (if sign.isSome then -(n.natAbs : Int) else n.natAbs) = n := by
  rw [toList_toString, List.append_assoc]
  by_cases negative : n < 0
  · rw [if_pos negative]
    refine ⟨some (), (reads_text "-" _).opt nofun, ?_⟩
    simp only [Option.isSome_some, if_true]
    omega
  · rw [if_neg negative]
    refine ⟨none, (refuses_text ?_).opt, ?_⟩
    · rintro ⟨more, eq⟩
      obtain ⟨d, ds, digits, all⟩ := exists_digitsOf n.natAbs
      rw [digits] at eq
      obtain rfl : '-' = d := (List.cons.inj eq).1
      exact absurd (all '-' List.mem_cons_self) (by decide)
    · simp only [Option.isSome_none, Bool.false_eq_true, if_false]
      omega

/-- A whole number is read from its digits, unless there are too many. -/
theorem reads_int (n : Int) : ReadAs primary afterPrimary (toString n).toList (integer n) := by
  intro depth rest _ fence
  have follows : Fence afterSegment rest := fence.mono (by decide)
  have pointless : ¬".".toList <+: rest := by
    rintro ⟨more, rfl⟩
    exact absurd (fence.head (c := '.') rfl (by decide)) (by decide)
  have fraction : (opt do text "."; digits).Reads rest none rest := ((refuses_text pointless).bind).opt
  have read : number.Reads ((toString n).toList ++ rest) (integer n) rest := by
    obtain ⟨sign, reads, value⟩ := reads_sign n rest
    refine reads_named.2 (reads.bind ((reads_digits n.natAbs follows.stop).bind (fraction.bind ?_)))
    unfold integer Decimal.whole?
    by_cases short : (Decimal.digitsOf n.natAbs).length ≤ Decimal.digitLimit
    · simp only [short, if_true, natOf_digitsOf, value]
      exact reads_pure ..
    · simp only [short, if_false]
      exact reads_pure ..
  exact primary_number read

/-! ### Words -/

/-- A word that stands for a literal is read as the literal. -/
theorem reads_keyword {v : Value} (h : (w, v) ∈ meanings) : ReadAs primary afterPrimary w.toList (.literal v) := by
  intro n rest _ fence
  have stop : ∀ c ∈ rest.head?, isIdentifierChar c = false := (fence.mono (by decide) : Fence afterSegment rest).stop
  exact primary_keyword (reads_literal (reads_keyword_stop h stop))

/-! ## Names -/

theorem reads_reference_next {name : String} {n : Nat} (h : Dotted name)
    (plain : ∀ first ∈ (parts '.' name).head?, first ∉ keywords) (fence : Fence afterName cs)
    (read : (reference (level n)).Reads (name.toList ++ cs) e rest) :
    (primary (level n)).Reads (name.toList ++ cs) e rest := by
  obtain ⟨seg, more, head, ident, eq, fence⟩ := h.begins fence
  have other : String.ofList seg ∉ keywords := plain _ head
  rw [eq] at read ⊢
  exact primary_name read (refuses_operator n ident fence) (refuses_query ident fence)
    (refuses_keyword ident fence other)

/-- A name is read as a name without arguments. -/
theorem reads_name {name : String} (h : Dotted name) (plain : ∀ first ∈ (parts '.' name).head?, first ∉ keywords) :
    ReadAs primary afterPrimary name.toList (.name name []) := by
  intro n rest _ fence
  have after : Fence afterName rest := fence.mono (List.subset_cons_self ..)
  have bare : (arguments (level n)).Refuses rest :=
    refuses_named.2 (refuses_spaced (w := "<") rfl fence (by decide)).bind
  refine reads_reference_next h plain after (reads_named.2 ((reads_path h after).bind (bare.opt.bind ?_)))
  exact reads_pure ..

/-- The query of a name is read. -/
theorem reads_query {name : String} (h : Dotted name) :
    ReadAs primary afterPrimary ("typeof".toList ++ ' ' :: name.toList) (.query name) := by
  intro n rest _ fence
  have after : Fence afterName rest := fence.mono (List.subset_cons_self ..)
  obtain ⟨seg, more, _, ident, eq, _⟩ := h.begins after
  obtain ⟨c, cs', rfl, start, _⟩ := exists_of_isIdentifier ident
  have solid : ∀ d ∈ (name.toList ++ rest).head?, isBlank d = false := by
    rw [eq]
    intro d head
    exact Option.some.inj head ▸ isBlank_of_isIdentifierChar (isIdentifierChar_of_start start)
  have blank : someBlanks.Reads (' ' :: (name.toList ++ rest)) () (name.toList ++ rest) := by
    have reads := reads_someBlanks (c := ' ') (by decide) (name.toList ++ rest)
    rwa [dropWhile_of_solid solid] at reads
  have read : query.Reads ("typeof".toList ++ ' ' :: (name.toList ++ rest)) (.query name) rest :=
    reads_named.2 ((reads_word "typeof" _).bind (blank.bind ((reads_path h after).bind (reads_pure ..))))
  rw [List.append_assoc, List.cons_append]
  exact primary_query read

end DocTree.TypeExpr
