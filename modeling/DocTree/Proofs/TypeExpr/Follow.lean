import DocTree.Proofs.TypeExpr.Alternatives
import DocTree.Proofs.TypeExpr.Locality

/-!
# What follows a type

Which alternative reads a type depends on what comes behind a part of it: parentheses could hold the parameters of a
function, a name could be a word in front of a type.

* `opens_of_goes` : a type begins with one of some characters;
* `AfterPart`, `AfterOperand`, `AfterPrimary` : what follows a part of a union, an operand and what has no suffix yet;
* `refuses_parameter_primary` : a type is no parameter of a function, so that `primary_parenthesized`;
* `primary_reference` : a name read in front of one end is read in front of another.
-/

namespace DocTree.TypeExpr

open Rule Grammar Text

variable {l : Level} {cs rest rest' : List Char} {e : Expr} {w : String}

/-! ## Beginnings -/

theorem opens_of_goes (h : Goes (primary l) cs) : ∃ c more, cs = c :: more ∧ opens c = true := by
  have some : ∃ c ∈ cs.head?, opens c = true := by
    by_contra none
    exact (refuses_primary (l := l) fun c head => by simpa using fun here => none ⟨c, head, here⟩).not_goes h
  obtain ⟨c, head, opening⟩ := some
  cases cs with
  | nil => cases head
  | cons d more => exact ⟨d, more, rfl, Option.some.inj head ▸ opening⟩

theorem goes_suffixed (h : Goes (suffixed l) cs) : Goes (primary l) cs := by
  obtain ⟨e, rest, reads⟩ := h
  exact Goes.of_bind ⟨e, rest, reads_named.1 reads⟩

theorem goes_intersection (h : Goes (intersection l) cs) : Goes (primary l) cs := by
  obtain ⟨e, rest, reads⟩ := h
  exact goes_suffixed (Goes.of_bind ⟨e, rest, reads_named.1 reads⟩).of_bind

theorem goes_union (h : Goes (union l) cs) : Goes (primary l) cs := by
  obtain ⟨e, rest, reads⟩ := h
  exact goes_intersection (Goes.of_bind ⟨e, rest, reads_named.1 reads⟩).of_bind

/-! ## What follows -/

/-- What may follow a part of a union: the end of the union, or another part. -/
def AfterPart (cs : List Char) : Prop := Next delimiters cs ∨ Goes (do spaced "|"; intersection deep) cs

/-- What may follow a type with its suffixes. -/
def AfterOperand (cs : List Char) : Prop := AfterPart cs ∨ Goes (do spaced "&"; suffixed deep) cs

/-- What may follow a type without suffix. -/
def AfterPrimary (cs : List Char) : Prop := AfterOperand cs ∨ Goes suffix cs

theorem head_of_goes {α : Type} {r : Rule α} {d : Char} {ds : List Char} (spelled : w.toList = d :: ds)
    (solid : isBlank d = false) (h : Goes (do spaced w; r) cs) : d ∈ (cs.dropWhile isBlank).head? := by
  obtain ⟨_, _, reads⟩ := h.of_bind
  obtain ⟨before, after, rfl, blank, _⟩ := Reads.of_spaced reads
  rw [List.dropWhile_append_of_pos blank, spelled, List.cons_append,
    List.dropWhile_cons_of_neg (Bool.eq_false_iff.1 solid)]
  rfl

theorem head_of_suffix (h : Goes suffix cs) : '[' ∈ (cs.dropWhile isBlank).head? := by
  obtain ⟨_, _, reads⟩ := h
  exact head_of_goes (w := "[") rfl (by decide) ⟨_, _, reads_named.1 reads⟩

theorem AfterPart.next (h : AfterPart cs) : Next ('|' :: delimiters) cs := by
  rcases h with h | h
  · exact h.mono (List.subset_cons_self ..)
  · exact (next_of_head (head_of_goes (w := "|") rfl (by decide) h)).mono (by decide)

theorem AfterOperand.next (h : AfterOperand cs) : Next ('&' :: '|' :: delimiters) cs := by
  rcases h with h | h
  · exact h.next.mono (List.subset_cons_self ..)
  · exact (next_of_head (head_of_goes (w := "&") rfl (by decide) h)).mono (by decide)

theorem AfterPrimary.next (h : AfterPrimary cs) : Next ('[' :: '&' :: '|' :: delimiters) cs := by
  rcases h with h | h
  · exact h.next.mono (List.subset_cons_self ..)
  · exact (next_of_head (head_of_suffix h)).mono (by decide)

theorem AfterPrimary.stop (h : AfterPrimary cs) : ∀ c ∈ cs.head?, isIdentifierChar c = false :=
  h.next.not_head (by decide) fun _ => isBlank_of_isIdentifierChar

/-! ## No type is a parameter -/

/-- A reference begins with an identifier, behind which comes a point, an argument, or what comes behind the
reference. -/
theorem Reads.of_reference (h : (reference l).Reads cs e rest) : ∃ seg mid, isIdentifier seg = true ∧ cs = seg ++ mid ∧
    (∀ c ∈ mid.head?, isIdentifierChar c = false) ∧ ('.' ∈ mid.head? ∨ Next ['<'] mid ∨ mid = rest) := by
  obtain ⟨name, behind, path, tail⟩ := reads_bind.1 (reads_named.1 h)
  obtain ⟨seg, mid, first, more⟩ := reads_bind.1 (reads_named.1 path)
  obtain ⟨ident, rfl, stop⟩ := Reads.of_identifier first
  refine ⟨seg, mid, ident, rfl, stop, ?_⟩
  obtain ⟨segs, mid', points, last⟩ := reads_bind.1 more
  obtain ⟨_, rfl⟩ := last.of_pure
  cases Repeats.of_many consumes_point points with
  | step reads =>
    obtain ⟨more, rfl, _⟩ := exists_of_word reads
    exact Or.inl rfl
  | stop =>
    obtain ⟨args, mid', args', last⟩ := reads_bind.1 tail
    obtain ⟨_, rfl⟩ := last.of_pure
    rcases args'.of_opt with ⟨_, rfl⟩ | ⟨_, _, reads⟩
    · exact Or.inr (Or.inr rfl)
    · exact Or.inr (Or.inl (next_of_head (head_of_goes (w := "<") rfl (by decide) ⟨_, _, reads_named.1 reads⟩)))

theorem refuses_parameter_word {more : List Char} {u : Unit} (word : isIdentifier w.toList = true)
    (h : someBlanks.Reads more u rest) (behind : ∃ c cs, rest = c :: cs ∧ opens c = true) :
    (parameter l).Refuses (w.toList ++ more) := by
  obtain ⟨b, mid, rfl, blank, rfl⟩ := Reads.of_someBlanks h
  obtain ⟨c, cs, eq, opening⟩ := behind
  refine refuses_parameter word (fun d head => ?_) (fun mark => ?_) fun colon => ?_
  · obtain rfl : b = d := Option.some.inj head
    by_contra ident
    rw [isBlank_of_isIdentifierChar (by simpa using ident)] at blank
    cases blank
  · obtain rfl : b = '?' := Option.some.inj mark
    cases blank
  · rw [eq] at colon
    obtain rfl : c = ':' := Option.some.inj colon
    cases opening

theorem refuses_parameter_cons {c : Char} {more : List Char} (name : isIdentifierStart c = false) (dot : c ≠ '.') :
    (parameter l).Refuses (c :: more) :=
  refuses_parameter_head (fun _ head => Option.some.inj head ▸ name) (not_mem_head (Ne.symm dot))

/-- A name in front of a point, an argument or what follows types is no parameter. -/
theorem refuses_parameter_type {seg mid : List Char} (ident : isIdentifier seg = true)
    (stop : ∀ c ∈ mid.head?, isIdentifierChar c = false)
    (behind : '.' ∈ mid.head? ∨ Next ('<' :: '[' :: '&' :: '|' :: delimiters) mid) :
    (parameter l).Refuses (seg ++ mid) := by
  have other : ∀ {d : Char}, d ≠ '.' → d ∉ '<' :: '[' :: '&' :: '|' :: delimiters →
      d ∉ (mid.dropWhile isBlank).head? := by
    intro d dot out head
    rcases behind with point | next
    · cases mid with
      | nil => cases point
      | cons c mid =>
        obtain rfl : c = '.' := Option.some.inj point
        exact dot (Option.some.inj head).symm
    · exact out (next d head)
  refine refuses_parameter ident stop (fun mark => ?_) (other (by decide) (by decide))
  have solid : mid.dropWhile isBlank = mid := dropWhile_of_solid fun c head => by
    rw [Option.mem_unique head mark]
    rfl
  exact other (d := '?') (by decide) (by decide) (solid.symm ▸ mark)

/-- A type in front of what follows types is no parameter. -/
theorem refuses_parameter_primary (h : (primary deep).Reads cs e rest) (after : AfterPrimary rest) :
    (parameter l).Refuses cs := by
  obtain ⟨r, mem, reads⟩ := Reads.of_choice (reads_named.1 h)
  simp only [List.mem_cons, List.not_mem_nil, or_false] at mem
  rcases mem with rfl | rfl | rfl | rfl | rfl | rfl | rfl | rfl | rfl | rfl
  · obtain ⟨more, rfl, _⟩ := exists_of_word (reads_named.1 reads)
    exact refuses_parameter_cons (by decide) (by decide)
  · obtain ⟨more, rfl, _⟩ := exists_of_word (reads_named.1 reads)
    exact refuses_parameter_cons (by decide) (by decide)
  · obtain ⟨more, rfl, _⟩ := exists_of_word (reads_named.1 reads)
    exact refuses_parameter_cons (by decide) (by decide)
  · obtain ⟨more, rfl, _⟩ := exists_of_word (reads_named.1 reads)
    exact refuses_parameter_cons (by decide) (by decide)
  · obtain ⟨w, more, word, tail⟩ := reads_bind.1 (reads_named.1 reads)
    obtain ⟨_, mid, blanks, tail⟩ := reads_bind.1 tail
    obtain ⟨mem, rfl⟩ := Reads.of_operatorWord word
    have ident : ∀ w ∈ operators, isIdentifier w.toList = true := by decide
    obtain ⟨e', rest', operand⟩ := Goes.of_bind ⟨_, _, tail⟩
    exact refuses_parameter_word (ident w mem) blanks
      (opens_of_goes (goes_suffixed ⟨e', rest', reads_deep_operand.1 operand⟩))
  · obtain ⟨more, rfl, tail⟩ := exists_of_word (reads_named.1 reads)
    obtain ⟨_, mid, blanks, tail⟩ := reads_bind.1 tail
    refine refuses_parameter_word (w := "typeof") (by decide) blanks ?_
    obtain ⟨name, behind, path⟩ := Goes.of_bind ⟨_, _, tail⟩
    obtain ⟨seg, rest', first⟩ := Goes.of_bind ⟨_, _, reads_named.1 path⟩
    obtain ⟨ident, rfl, _⟩ := Reads.of_identifier first
    obtain ⟨c, cs, rfl, start, _⟩ := exists_of_isIdentifier ident
    exact ⟨c, _, rfl, by simp [opens, isOpening_of_start start]⟩
  · obtain ⟨v, mid, string, last⟩ := reads_bind.1 reads
    obtain ⟨c, more, rfl, rfl | rfl⟩ := exists_of_string string
    · exact refuses_parameter_cons (by decide) (by decide)
    · exact refuses_parameter_cons (by decide) (by decide)
  · obtain ⟨c, more, rfl, sign | digit⟩ := exists_of_number reads
    · exact sign ▸ refuses_parameter_cons (by decide) (by decide)
    · refine refuses_parameter_cons (Bool.eq_false_iff.2 fun start => ?_) fun dot => ?_
      · rw [isDigit_of_start start] at digit
        cases digit
      · rw [dot] at digit
        cases digit
  · obtain ⟨v, mid, keyword, last⟩ := reads_bind.1 reads
    obtain ⟨_, rfl⟩ := last.of_pure
    obtain ⟨w, mem, rfl, stop⟩ := Reads.of_keyword keyword
    have ident : ∀ m ∈ meanings, isIdentifier m.1.toList = true := by decide
    exact refuses_parameter_type (ident _ mem) stop (Or.inr (after.next.mono (List.subset_cons_self ..)))
  · obtain ⟨seg, mid, ident, rfl, stop, behind⟩ := Reads.of_reference reads
    refine refuses_parameter_type ident stop (behind.imp_right fun behind => ?_)
    rcases behind with next | rfl
    · exact next.mono (by decide)
    · exact after.next.mono (List.subset_cons_self ..)

/-! ### Types in parentheses -/

theorem consumes_part : Consumes (do spaced "|"; intersection deep) :=
  (consumes_spaced (by decide)).bind fun k _ => (agree_intersection (deep_agrees k)).mono (Nat.le_succ k)

theorem consumes_operand : Consumes (do spaced "&"; suffixed deep) :=
  (consumes_spaced (by decide)).bind fun k _ => (agree_suffixed (deep_agrees k)).mono (Nat.le_succ k)

theorem consumes_suffix : Consumes suffix :=
  ((consumes_spaced (by decide)).bind fun _ _ => (consumes_word (by decide)).agree).named

theorem exists_of_separated {α : Type} {r : Rule α} {as : List α} {F : List Char → Prop}
    (consumes : Consumes (do spaced w; r)) (h : (separated r w).Reads cs as rest) (after : F rest) :
    ∃ a mid, r.Reads cs a mid ∧ (F mid ∨ Goes (do spaced w; r) mid) := by
  obtain ⟨a, mid, first, tail⟩ := reads_bind.1 h
  obtain ⟨more, mid', reads, last⟩ := reads_bind.1 tail
  obtain ⟨_, rfl⟩ := last.of_pure
  exact ⟨a, mid, first, (Repeats.of_many consumes reads).follows after⟩

theorem exists_primary (h : (union deep).Reads cs e rest) (after : Next delimiters rest) :
    ∃ e' mid, (primary deep).Reads cs e' mid ∧ AfterPrimary mid := by
  obtain ⟨parts, mid, parts', last⟩ := reads_bind.1 (reads_named.1 h)
  obtain ⟨_, rfl⟩ := last.of_pure
  obtain ⟨part, mid, part', after⟩ := exists_of_separated consumes_part parts' after
  obtain ⟨operands, mid', operands', last⟩ := reads_bind.1 (reads_named.1 part')
  obtain ⟨_, rfl⟩ := last.of_pure
  obtain ⟨operand, mid, operand', after⟩ := exists_of_separated consumes_operand operands' (F := AfterPart) after
  obtain ⟨e', mid', primary, tail⟩ := reads_bind.1 (reads_named.1 operand')
  obtain ⟨suffixes, mid'', suffixes', last⟩ := reads_bind.1 tail
  obtain ⟨_, rfl⟩ := last.of_pure
  exact ⟨e', mid', primary, (Repeats.of_many consumes_suffix suffixes').follows (F := AfterOperand) after⟩

/-- What reads a type in parentheses reads no parameters there, and no function. -/
theorem primary_parenthesized (h : (parenthesized deep).Reads cs e rest) : (primary deep).Reads cs e rest := by
  obtain ⟨more, rfl, tail⟩ := exists_of_word (reads_named.1 h)
  obtain ⟨_, mid, left, tail⟩ := reads_bind.1 tail
  obtain ⟨e', behind, type, tail⟩ := reads_bind.1 tail
  have close : Next delimiters behind := (next_of_word (w := ")") rfl tail).mono (by decide)
  have type : (union deep).Reads mid e' behind := reads_deep_union.1 type
  obtain ⟨_, _, primary, after⟩ := exists_primary type close
  obtain ⟨c, cs, rfl, opening⟩ := opens_of_goes (goes_union ⟨_, _, type⟩)
  have none : (parameters deep).Refuses (c :: cs) := refuses_named.2 (refuses_parameter_primary primary after).bind
  have closed : (word ")").Refuses (c :: cs) := by
    refine refuses_word_head (w := ")") rfl (not_mem_head ?_)
    rintro rfl
    cases opening
  have function : (function deep).Refuses ("(".toList ++ more) :=
    refuses_named.2 ((reads_word "(" more).bind_refuses (left.bind_refuses (none.opt.bind_refuses
      ((reads_blanks_cons (isBlank_of_opens opening) cs).bind_refuses closed.bind))))
  exact reads_named.2 (function.next h.first)

/-! ### Names -/

/-- A repetition reads something everywhere, if only nothing. -/
theorem goes_many {α : Type} (r : Rule α) (cs : List Char) : Goes (many r) cs := by
  have bounded : ∀ n cs, Goes (upTo r n) cs := by
    intro n
    induction n with
    | zero => exact fun cs => ⟨[], cs, rfl⟩
    | succ n ih =>
      intro cs
      unfold Goes Reads upTo
      split
      · exact ⟨[], cs, rfl⟩
      · cases found : (r cs).result with
        | none => exact ⟨[], cs, by simp [found]⟩
        | some p =>
          by_cases still : p.2.length = cs.length
          · exact ⟨[p.1], p.2, by simp [found, still]⟩
          · obtain ⟨as, rest, reads⟩ := ih p.2
            unfold Reads at reads
            exact ⟨p.1 :: as, rest, by simp [found, still, reads]⟩
  exact bounded cs.length cs

theorem refuses_deep_operand (h : ∀ c ∈ cs.head?, opens c = false) : deep.operand.Refuses cs := by
  unfold Refuses
  rw [deep_operand]
  exact refuses_operand (cs.length + 1) h

theorem refuses_deep_union (h : ∀ c ∈ cs.head?, opens c = false) : deep.union.Refuses cs := by
  unfold Refuses
  rw [deep_union]
  exact refuses_union (cs.length + 1) h

/-- Where a suffix is, behind blanks, there is a tuple without elements. -/
theorem goes_operand_of_suffix (h : Goes suffix cs) : Goes deep.operand (cs.dropWhile isBlank) := by
  obtain ⟨_, rest, reads⟩ := h
  obtain ⟨_, mid, left, right⟩ := reads_bind.1 (reads_named.1 reads)
  obtain ⟨before, after, rfl, blank, rfl⟩ := Reads.of_spaced left
  have close : after.dropWhile isBlank = ']' :: rest := right.of_word
  have here : (before ++ ("[".toList ++ after)).dropWhile isBlank = '[' :: after := by
    rw [List.dropWhile_append_of_pos blank]
    rfl
  have inner : blanks.Reads after () (']' :: rest) := close ▸ reads_blanks after
  have none : (elements deep).Refuses (']' :: rest) := by
    refine refuses_named.2 (refuses_deep_union fun c head => ?_).bind
    exact Option.some.inj head ▸ rfl
  have empty : (tuple deep).Reads ('[' :: after) (.tuple []) rest :=
    reads_named.2 ((reads_word "[" after).bind (inner.bind (none.opt.bind ((reads_blanks_cons (by decide) rest).bind
      ((reads_word "]" rest).bind (reads_pure ..))))))
  obtain ⟨suffixes, rest', more⟩ := goes_many suffix rest
  rw [here]
  exact ⟨_, rest', reads_deep_operand.2 (reads_named.2 ((primary_tuple empty).bind (more.bind (reads_pure ..))))⟩

theorem AfterPrimary.goes_suffix (h : AfterPrimary cs) (alike : Alike cs' cs) (h' : Goes suffix cs') :
    Goes suffix cs ∧ cs.head? = cs'.head? := by
  obtain ⟨head, same⟩ := alike.head (head_of_suffix h') (by decide)
  refine ⟨h.resolve_left fun operand => ?_, same⟩
  exact absurd (operand.next _ head) (by decide)

theorem next_behind {mid mid' : List Char} {b : Char} (begins : mid = b :: mid') (blank : isBlank b = true)
    (behind : '.' ∈ mid.head? ∨ Next ['<'] mid ∨ mid = rest) : Next ['<'] mid ∨ mid = rest := by
  refine behind.resolve_left fun point => ?_
  rw [begins] at point
  obtain rfl : b = '.' := Option.some.inj point
  cases blank

theorem prefix_of_stop {used more : List Char} (chars : ∀ c ∈ w.toList, isIdentifierChar c = true)
    (stop : ∀ c ∈ rest.head?, isIdentifierChar c = false) (eq : used ++ rest = w.toList ++ more) :
    ∃ behind, used = w.toList ++ behind ∧ more = behind ++ rest := by
  rcases List.append_eq_append_iff.1 eq with ⟨as, here, behind⟩ | ⟨bs, here, behind⟩
  · cases as with
    | nil => exact ⟨[], by simpa using here.symm, by simpa using behind.symm⟩
    | cons a as =>
      have ident : isIdentifierChar a = true := chars a (here ▸ List.mem_append_right _ List.mem_cons_self)
      have other := stop a (by rw [behind]; rfl)
      rw [ident] at other
      cases other
  · exact ⟨bs, here, behind⟩

/-- A name that is read in front of one end is read in front of another, as the words that it could be mistaken for
are read in front of neither. -/
theorem primary_reference {used : List Char} (h : (reference deep).Reads (used ++ rest') e rest')
    (operator : (operator deep).Refuses (used ++ rest)) (keyword : keyword.Refuses (used ++ rest))
    (alike : Alike rest' rest) (after : AfterPrimary rest) (after' : AfterPrimary rest') :
    (primary deep).Reads (used ++ rest') e rest' := by
  obtain ⟨seg, mid, ident, eq, stop, behind⟩ := Reads.of_reference h
  -- What is behind blanks could begin no name, and a type only if there are brackets.
  have next : ∀ b mid', mid = b :: mid' → isBlank b = true → ∀ c ∈ (mid.dropWhile isBlank).head?,
      c ∈ '<' :: '[' :: '&' :: '|' :: delimiters := by
    intro b mid' begins blank
    rcases next_behind begins blank behind with next | rfl
    · exact next.mono (by decide)
    · exact after'.next.mono (List.subset_cons_self ..)
  have names : ∀ c ∈ '<' :: '[' :: '&' :: '|' :: delimiters,
      isIdentifierStart c = false ∧ (c ≠ '[' → opens c = false) := by decide
  refine primary_name h ?_ ?_ (refuses_of_not_goes fun ⟨v, more, reads⟩ => ?_)
  · rw [eq]
    refine refuses_operator_name ident stop fun w word b mid' start blank here => refuses_deep_operand fun c head => ?_
    by_cases bracket : c = '['
    · subst bracket
      have ends : mid = rest' :=
        (next_behind start blank behind).resolve_left fun next => absurd (next _ head) (by decide)
      subst ends
      have suffix' : Goes suffix mid := after'.resolve_left fun operand => absurd (operand.next _ head) (by decide)
      obtain ⟨suffix, same⟩ := after.goes_suffix alike suffix'
      obtain ⟨target, behind', operand⟩ := goes_operand_of_suffix suffix
      obtain rfl : used = w.toList := here ▸ List.append_cancel_right eq
      obtain ⟨more', rfl⟩ : ∃ more', rest = b :: more' := by
        rw [start] at same
        exact List.head?_eq_some_iff.1 same
      rw [List.dropWhile_cons_of_pos blank] at operand
      have reads : (Grammar.operator deep).Reads (w.toList ++ b :: more') (.operator w target) behind' :=
        reads_named.2 ((reads_operatorWord word _).bind ((reads_someBlanks blank _).bind
          (operand.bind (reads_pure ..))))
      exact absurd operator reads.not_refuses
    · exact (names c (next b mid' start blank c head)).2 bracket
  · rw [eq]
    exact refuses_query_name ident stop fun b mid' start blank c head => (names c (next b mid' start blank c head)).1
  · obtain ⟨w, mem, begins, stop'⟩ := Reads.of_keyword reads
    have chars : ∀ m ∈ meanings, ∀ c ∈ m.1.toList, isIdentifierChar c = true := by decide
    obtain ⟨behind, rfl, rfl⟩ := prefix_of_stop (chars _ mem) after'.stop begins
    have stop : ∀ c ∈ (behind ++ rest).head?, isIdentifierChar c = false :=
      (alike.append behind).not_head (by decide) (fun _ => isBlank_of_isIdentifierChar) stop'
    rw [List.append_assoc] at keyword
    exact (reads_keyword_stop mem stop).not_refuses keyword

end DocTree.TypeExpr
