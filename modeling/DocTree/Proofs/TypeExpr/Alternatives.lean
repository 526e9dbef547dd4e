import DocTree.Proofs.TypeExpr.Tokens

/-!
# What an alternative reads is read

The alternatives for a type are tried in order. Where one of them reads something, those before it are refused by what
the text begins with: `primary_tuple`, `primary_object`, `primary_operator`, … A name can begin like a word in front of
a type, or be one; `primary_name` says what has to be refused before.
-/

namespace DocTree.TypeExpr

open Rule Grammar Text

variable {l : Level} {cs rest : List Char} {e : Expr} {w : String}

theorem reads_literal {r : Rule Value} {v : Value} (h : r.Reads cs v rest) : (literal r).Reads cs (.literal v) rest :=
  h.bind (reads_pure ..)

theorem reads_function_next (paren : '(' ∉ cs.head?) (bracket : '[' ∉ cs.head?) (brace : '\x7b' ∉ cs.head?)
    (h : (choice [operator l, query, literal string, number, literal keyword, reference l]).Reads cs e rest) :
    (primary l).Reads cs e rest :=
  reads_named.2 ((refuses_function paren).next ((refuses_parenthesized paren).next
    ((refuses_tuple bracket).next ((refuses_object brace).next h))))

theorem primary_function (h : (function l).Reads cs e rest) : (primary l).Reads cs e rest := reads_named.2 h.first

theorem primary_tuple (h : (tuple l).Reads cs e rest) : (primary l).Reads cs e rest := by
  obtain ⟨more, rfl, _⟩ := exists_of_word (reads_named.1 h)
  refine reads_named.2 ((refuses_function ?_).next ((refuses_parenthesized ?_).next h.first))
  all_goals exact not_mem_head (by decide)

theorem primary_object (h : (object l).Reads cs e rest) : (primary l).Reads cs e rest := by
  obtain ⟨more, rfl, _⟩ := exists_of_word (reads_named.1 h)
  refine reads_named.2 ((refuses_function ?_).next ((refuses_parenthesized ?_).next ((refuses_tuple ?_).next h.first)))
  all_goals exact not_mem_head (by decide)

theorem primary_operator (h : (operator l).Reads cs e rest) : (primary l).Reads cs e rest := by
  obtain ⟨w, more, word, _⟩ := reads_bind.1 (reads_named.1 h)
  obtain ⟨mem, rfl⟩ := Reads.of_operatorWord word
  have words : ∀ w ∈ operators, isIdentifier w.toList = true := by decide
  obtain ⟨c, cs, eq, start, _⟩ := exists_of_isIdentifier (words w mem)
  have other : ∀ {d : Char}, isIdentifierStart d = false → d ∉ (w.toList ++ more).head? := fun other =>
    eq ▸ not_mem_head_of start other
  exact reads_function_next (other (by decide)) (other (by decide)) (other (by decide)) h.first

theorem primary_query (h : query.Reads cs e rest) : (primary l).Reads cs e rest := by
  obtain ⟨more, rfl, _⟩ := exists_of_word (reads_named.1 h)
  refine reads_function_next ?_ ?_ ?_ (Refuses.next (refuses_named.2 (refuses_operatorWord ?_ ?_ ?_).bind) h.first)
  all_goals exact not_mem_head (by decide)

theorem primary_string (h : (literal Grammar.string).Reads cs e rest) : (primary l).Reads cs e rest := by
  obtain ⟨v, mid, reads, _⟩ := reads_bind.1 h
  obtain ⟨c, more, rfl, rfl | rfl⟩ := exists_of_string reads
  all_goals
    refine reads_function_next ?_ ?_ ?_ (Refuses.next (refuses_named.2 (refuses_operatorWord ?_ ?_ ?_).bind)
      ((refuses_query_head ?_).next h.first))
    all_goals exact not_mem_head (by decide)

theorem primary_number (h : number.Reads cs e rest) : (primary l).Reads cs e rest := by
  obtain ⟨c, more, rfl, begins⟩ := exists_of_number h
  have other : ∀ {d : Char}, (d = '-' || d.isDigit) = false → d ∉ (c :: more).head? := fun other =>
    not_mem_head_of (p := fun c => c = '-' || c.isDigit) (by simpa using begins) other
  refine reads_function_next ?_ ?_ ?_ (Refuses.next (refuses_named.2 (refuses_operatorWord ?_ ?_ ?_).bind)
    ((refuses_query_head ?_).next ((refuses_literal (refuses_string ?_ ?_)).next h.first)))
  all_goals exact other (by decide)

theorem exists_meaning {v : Value} (h : (w, v) ∈ meanings) : ∃ c d more, w.toList = c :: d :: more ∧
    c ∈ ['t', 'f', 'n'] ∧ d ≠ 'y' := by
  simp only [meanings, List.mem_cons, Prod.mk.injEq, List.not_mem_nil, or_false] at h
  rcases h with ⟨rfl, rfl⟩ | ⟨rfl, rfl⟩ | ⟨rfl, rfl⟩
  · exact ⟨'t', 'r', _, rfl, by decide, by decide⟩
  · exact ⟨'f', 'a', _, rfl, by decide, by decide⟩
  · exact ⟨'n', 'u', _, rfl, by decide, by decide⟩

theorem primary_keyword (h : (literal keyword).Reads cs e rest) : (primary l).Reads cs e rest := by
  obtain ⟨v, rest', reads, _⟩ := reads_bind.1 h
  obtain ⟨w, mem, rfl, _⟩ := Reads.of_keyword reads
  obtain ⟨c, d, more, eq, first, second⟩ := exists_meaning mem
  rw [eq] at h ⊢
  have other : ∀ {d' : Char}, ['t', 'f', 'n'].contains d' = false → d' ∉ (c :: d :: more ++ rest').head? := fun other =>
    not_mem_head_of (p := ['t', 'f', 'n'].contains) (by simpa using first) other
  have digit : ∀ d' ∈ (c :: d :: more ++ rest').head?, d'.isDigit = false := by
    have letters : ∀ c ∈ ['t', 'f', 'n'], c.isDigit = false := by decide
    exact fun d' head => Option.some.inj head ▸ letters c first
  have query : query.Refuses (c :: d :: more ++ rest') := by
    refine refuses_named.2 (refuses_word fun ⟨more', begins⟩ => second ?_).bind
    exact (List.cons.inj (List.cons.inj begins).2).1.symm
  refine reads_function_next (other (by decide)) (other (by decide)) (other (by decide)) ?_
  refine Refuses.next (refuses_named.2 (refuses_operatorWord ?_ ?_ ?_).bind) (query.next
    ((refuses_literal (refuses_string ?_ ?_)).next ((refuses_number ?_ digit).next h.first)))
  all_goals exact other (by decide)

theorem isDigit_of_start {c : Char} (h : isIdentifierStart c = true) : c.isDigit = false := by
  unfold isIdentifierStart at h
  simp only [Bool.or_eq_true, decide_eq_true_eq] at h
  by_contra here
  have digit := code_of_isDigit (by simpa using here)
  rcases h with (letter | rfl) | rfl
  · have := code_of_isAlpha letter
    omega
  · revert digit
    decide
  · revert digit
    decide

/-- A reference is read as a type if it begins with none of the words. -/
theorem primary_name (h : (reference l).Reads cs e rest) (operator : (operator l).Refuses cs) (query : query.Refuses cs)
    (keyword : keyword.Refuses cs) : (primary l).Reads cs e rest := by
  obtain ⟨name, behind, path, _⟩ := reads_bind.1 (reads_named.1 h)
  obtain ⟨seg, mid, first, _⟩ := reads_bind.1 (reads_named.1 path)
  obtain ⟨ident, rfl, _⟩ := Reads.of_identifier first
  obtain ⟨c, more, rfl, start, _⟩ := exists_of_isIdentifier ident
  have other : ∀ {d : Char}, isIdentifierStart d = false → d ∉ (c :: more ++ mid).head? := fun other =>
    not_mem_head_of start other
  have digit : ∀ d ∈ (c :: more ++ mid).head?, d.isDigit = false := fun d head =>
    Option.some.inj head ▸ isDigit_of_start start
  refine reads_function_next (other (by decide)) (other (by decide)) (other (by decide)) ?_
  refine operator.next (query.next ?_)
  refine (refuses_literal (refuses_string (other (by decide)) (other (by decide)))).next ?_
  exact (refuses_number (other (by decide)) digit).next ((refuses_literal keyword).next h.first)

end DocTree.TypeExpr
