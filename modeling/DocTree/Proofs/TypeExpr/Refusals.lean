import DocTree.Proofs.TypeExpr.Names

/-!
# What is no type of some kind

The alternatives for a type are tried in order, so that each is read only where those before it are refused.

* `refuses_function`, … : they are refused by the character that a text begins with; `opens` : the characters that some
  begin with; `refuses_primary` : all are refused by the others;
* `refuses_operator`, `refuses_query`, `refuses_keyword` : names that begin like a word, or are one, are still names;
* `Begins cs` : the text begins like a type, and not like the parameter of a function.
-/

namespace DocTree.TypeExpr

open Rule Grammar Text

variable {l : Level} {cs rest : List Char} {e : Expr} {w : String}

/-! ## Refusals -/

theorem not_mem_head {c d : Char} (ne : d ≠ c) : d ∉ (c :: cs).head? := fun head => ne (Option.some.inj head).symm

theorem not_mem_head_of {p : Char → Bool} {c d : Char} (here : p c = true) (other : p d = false) :
    d ∉ (c :: cs).head? := by
  refine not_mem_head ?_
  rintro rfl
  rw [other] at here
  cases here

theorem refuses_function (h : '(' ∉ cs.head?) : (function l).Refuses cs :=
  refuses_named.2 (refuses_word_head (w := "(") rfl h).bind

theorem refuses_parenthesized (h : '(' ∉ cs.head?) : (parenthesized l).Refuses cs :=
  refuses_named.2 (refuses_word_head (w := "(") rfl h).bind

theorem refuses_tuple (h : '[' ∉ cs.head?) : (tuple l).Refuses cs :=
  refuses_named.2 (refuses_word_head (w := "[") rfl h).bind

theorem refuses_object (h : '\x7b' ∉ cs.head?) : (object l).Refuses cs :=
  refuses_named.2 (refuses_word_head (w := "\x7b") rfl h).bind

theorem refuses_operatorWord (k : 'k' ∉ cs.head?) (r : 'r' ∉ cs.head?) (u : 'u' ∉ cs.head?) :
    operatorWord.Refuses cs := by
  refine refuses_named.2 (refuses_choice fun r mem => ?_)
  rcases List.mem_cons.1 mem with rfl | mem
  · exact (refuses_word_head (w := "keyof") rfl k).bind
  rcases List.mem_cons.1 mem with rfl | mem
  · exact (refuses_word_head (w := "readonly") rfl ‹_›).bind
  rw [List.mem_singleton.1 mem]
  exact (refuses_word_head (w := "unique") rfl u).bind

theorem refuses_string (double : '"' ∉ cs.head?) (single : '\'' ∉ cs.head?) : string.Refuses cs := by
  have quoted : ∀ {q}, q ∉ cs.head? → (quotedBy q).Refuses cs := by
    intro q other
    unfold Refuses quotedBy
    cases cs with
    | nil => rfl
    | cons c cs =>
      have ne : c ≠ q := fun here => other (here ▸ rfl)
      simp only [ne, if_false]
  exact refuses_named.2 ((quoted double).orElse_refuses (quoted single))

theorem refuses_number (sign : '-' ∉ cs.head?) (digit : ∀ c ∈ cs.head?, c.isDigit = false) : number.Refuses cs := by
  have none : ¬"-".toList <+: cs := by
    rintro ⟨more, eq⟩
    exact sign (eq ▸ rfl)
  exact refuses_named.2 ((refuses_text none).opt.bind_refuses (refuses_one digit).bind.bind)

theorem refuses_reference (h : ∀ c ∈ cs.head?, isIdentifierStart c = false) : (reference l).Refuses cs :=
  refuses_named.2 (refuses_named.2 (refuses_identifier h).bind).bind

theorem refuses_literal {r : Rule Value} (h : r.Refuses cs) : (literal r).Refuses cs := h.bind

theorem refuses_query_head (h : 't' ∉ cs.head?) : query.Refuses cs :=
  refuses_named.2 (refuses_word_head (w := "typeof") rfl h).bind

theorem refuses_keyword_head (t : 't' ∉ cs.head?) (f : 'f' ∉ cs.head?) (n : 'n' ∉ cs.head?) : keyword.Refuses cs := by
  refine refuses_named.2 (refuses_choice fun r mem => ?_).bind
  rcases List.mem_cons.1 mem with rfl | mem
  · exact (refuses_word_head (w := "true") rfl t).bind
  rcases List.mem_cons.1 mem with rfl | mem
  · exact (refuses_word_head (w := "false") rfl f).bind
  rw [List.mem_singleton.1 mem]
  exact (refuses_word_head (w := "null") rfl n).bind

/-! ### Beginnings -/

/-- The characters that a printed type begins with. -/
def isOpening (c : Char) : Bool := isIdentifierStart c || c.isDigit || c = '"' || c = '-' || c = '[' || c = '('

theorem isBlank_of_isOpening {c : Char} (h : isOpening c = true) : isBlank c = false := by
  unfold isOpening at h
  simp only [Bool.or_eq_true, decide_eq_true_eq] at h
  rcases h with ((((start | digit) | rfl) | rfl) | rfl) | rfl
  · exact isBlank_of_isIdentifierChar (isIdentifierChar_of_start start)
  · refine isBlank_of_isIdentifierChar ?_
    unfold isIdentifierChar Char.isAlphanum
    rw [digit, Bool.or_true, Bool.true_or, Bool.true_or]
  all_goals decide

theorem isOpening_of_start {c : Char} (h : isIdentifierStart c = true) : isOpening c = true := by
  unfold isOpening
  rw [h]
  rfl

/-- The characters that a type begins with. -/
def opens (c : Char) : Bool := isOpening c || c = '\'' || c = '\x7b'

theorem isBlank_of_opens {c : Char} (h : opens c = true) : isBlank c = false := by
  simp only [opens, Bool.or_eq_true, decide_eq_true_eq] at h
  rcases h with (opening | rfl) | rfl
  · exact isBlank_of_isOpening opening
  · decide
  · decide

/-- Where another character follows, no type begins. -/
theorem refuses_primary (h : ∀ c ∈ cs.head?, opens c = false) : (primary l).Refuses cs := by
  have other : ∀ {d : Char}, opens d = true → d ∉ cs.head? := by
    intro d opening head
    rw [h d head] at opening
    cases opening
  have none : ∀ {p : Char → Bool}, (∀ c, p c = true → opens c = true) → ∀ c ∈ cs.head?, p c = false := by
    intro p sub c head
    by_contra here
    exact other (sub c (by simpa using here)) head
  refine refuses_named.2 ((refuses_function ?_).orElse_refuses ((refuses_parenthesized ?_).orElse_refuses
    ((refuses_tuple ?_).orElse_refuses ((refuses_object ?_).orElse_refuses ((refuses_named.2
    (refuses_operatorWord ?_ ?_ ?_).bind).orElse_refuses ((refuses_query_head ?_).orElse_refuses
    ((refuses_literal (refuses_string ?_ ?_)).orElse_refuses ((refuses_number ?_ ?_).orElse_refuses
    ((refuses_literal (refuses_keyword_head ?_ ?_ ?_)).orElse_refuses
    ((refuses_reference ?_).orElse_refuses rfl))))))))))
  all_goals first
    | exact other (by decide)
    | exact none fun c here => by simp [opens, isOpening, here]

theorem refuses_operand (n : Nat) (h : ∀ c ∈ cs.head?, opens c = false) : (level n).operand.Refuses cs := by
  cases n with
  | zero => rfl
  | succ n => exact refuses_named.2 (refuses_primary h).bind

theorem refuses_union (n : Nat) (h : ∀ c ∈ cs.head?, opens c = false) : (level n).union.Refuses cs := by
  cases n with
  | zero => rfl
  | succ n =>
    have suffixed : (suffixed (level n)).Refuses cs := refuses_named.2 (refuses_primary h).bind
    have intersection : (intersection (level n)).Refuses cs := refuses_named.2 (Refuses.bind suffixed.bind)
    exact refuses_named.2 (Refuses.bind intersection.bind)

/-! ### Identifiers that begin like a word -/

variable {seg : List Char}

/-- A word that begins a name, or is one, leads to nothing if nothing that goes on is behind blanks. -/
theorem refuses_word_name {α : Type} {r : Rule α} {more : List Char} (chars : ∀ c ∈ w.toList, isIdentifierChar c = true)
    (h : isIdentifier seg = true) (stop : ∀ c ∈ rest.head?, isIdentifierChar c = false)
    (eq : w.toList ++ more = seg ++ rest)
    (none : ∀ b rest', rest = b :: rest' → isBlank b = true → seg = w.toList → r.Refuses (rest.dropWhile isBlank)) :
    (do someBlanks; r).Refuses more := by
  obtain ⟨_, _, _, _, inner⟩ := exists_of_isIdentifier h
  rcases boundary chars inner stop eq with ⟨c, head, ident⟩ | ⟨here, rfl⟩
  · refine (refuses_someBlanks fun d head' => ?_).bind
    rw [Option.mem_unique head' head]
    exact isBlank_of_isIdentifierChar ident
  · cases more with
    | nil =>
      refine (refuses_someBlanks fun c head => ?_).bind
      cases head
    | cons b more =>
      by_cases blank : isBlank b = true
      · have behind := none b more rfl blank here
        rw [List.dropWhile_cons_of_pos blank] at behind
        exact (reads_someBlanks blank more).bind_refuses behind
      · refine (refuses_someBlanks fun d head => ?_).bind
        exact Option.some.inj head ▸ Bool.eq_false_iff.2 blank

theorem meaning_cases {α : Type} (w : String) (a : α) (cs : List Char) :
    (meaning w a).Refuses cs ∨ ∃ more, w.toList ++ more = cs ∧ (meaning w a).Reads cs a more := by
  by_cases h : w.toList <+: cs
  · obtain ⟨more, rfl⟩ := h
    exact Or.inr ⟨more, rfl, (reads_word w more).bind (reads_pure ..)⟩
  · exact Or.inl (refuses_word h).bind

theorem meanings_cases {α : Type} (words : List (String × α)) (cs : List Char) :
    (choice (words.map fun w => meaning w.1 w.2)).Refuses cs ∨ ∃ w ∈ words, ∃ more, w.1.toList ++ more = cs ∧
      (choice (words.map fun w => meaning w.1 w.2)).Reads cs w.2 more := by
  induction words with
  | nil => exact Or.inl rfl
  | cons w words ih =>
    rcases meaning_cases w.1 w.2 cs with refuses | ⟨more, eq, reads⟩
    · rcases ih with none | ⟨w', mem, more, eq, reads⟩
      · exact Or.inl (refuses.orElse_refuses none)
      · exact Or.inr ⟨w', List.mem_cons_of_mem w mem, more, eq, refuses.next reads⟩
    · exact Or.inr ⟨w, List.mem_cons_self, more, eq, reads.first⟩

/-- The words in front of types. -/
def operators : List String := ["keyof", "readonly", "unique"]

theorem refuses_operator_name (h : isIdentifier seg = true) (stop : ∀ c ∈ rest.head?, isIdentifierChar c = false)
    (none : ∀ w ∈ operators, ∀ b rest', rest = b :: rest' → isBlank b = true → seg = w.toList →
      l.operand.Refuses (rest.dropWhile isBlank)) : (operator l).Refuses (seg ++ rest) := by
  rcases meanings_cases [("keyof", "keyof"), ("readonly", "readonly"), ("unique", "unique")] (seg ++ rest) with
    refuses | ⟨w, mem, more, eq, reads⟩
  · exact refuses_named.2 (Refuses.bind (refuses_named.2 refuses))
  · have all : ∀ w ∈ [("keyof", "keyof"), ("readonly", "readonly"), ("unique", "unique")],
        w.1 ∈ operators ∧ ∀ c ∈ w.1.toList, isIdentifierChar c = true := by decide
    obtain ⟨word, chars⟩ := all w mem
    refine refuses_named.2 (Reads.bind_refuses (reads_named.2 reads) ?_)
    exact refuses_word_name chars h stop eq fun b rest' start blank here =>
      (none w.1 word b rest' start blank here).bind

theorem refuses_query_name (h : isIdentifier seg = true) (stop : ∀ c ∈ rest.head?, isIdentifierChar c = false)
    (none : ∀ b rest', rest = b :: rest' → isBlank b = true →
      ∀ c ∈ (rest.dropWhile isBlank).head?, isIdentifierStart c = false) : query.Refuses (seg ++ rest) := by
  by_cases begins : "typeof".toList <+: seg ++ rest
  · obtain ⟨more, eq⟩ := begins
    refine refuses_named.2 (Reads.bind_refuses (eq ▸ reads_word "typeof" more) ?_)
    exact refuses_word_name (w := "typeof") (by decide) h stop eq fun b rest' start blank _ =>
      (refuses_named.2 (refuses_identifier (none b rest' start blank)).bind).bind
  · exact refuses_named.2 (refuses_word begins).bind

theorem Fence.joins (fence : Fence afterSegment rest) {b : Char} {rest' : List Char} (start : rest = b :: rest')
    (blank : isBlank b = true) {p : Char → Bool} (bar : p '|' = false) (join : p '&' = false) :
    ∀ c ∈ (rest.dropWhile isBlank).head?, p c = false := by
  intro c head
  rcases fence.blank b (start ▸ rfl) blank c head with rfl | rfl
  · exact bar
  · exact join

theorem refuses_operator (n : Nat) (h : isIdentifier seg = true) (fence : Fence afterSegment rest) :
    (operator (level n)).Refuses (seg ++ rest) :=
  refuses_operator_name h fence.stop fun _ _ _ _ start blank _ =>
    refuses_operand n (fence.joins start blank (by decide) (by decide))

theorem refuses_query (h : isIdentifier seg = true) (fence : Fence afterSegment rest) : query.Refuses (seg ++ rest) :=
  refuses_query_name h fence.stop fun _ _ start blank => fence.joins start blank (by decide) (by decide)

/-- The words that stand for literals. -/
def keywords : List String := ["true", "false", "null"]

def meanings : List (String × Value) := [("true", .bool true), ("false", .bool false), ("null", .null)]

/-- Another identifier is none of these words. -/
theorem refuses_keyword (h : isIdentifier seg = true) (fence : Fence afterSegment rest)
    (other : String.ofList seg ∉ keywords) : keyword.Refuses (seg ++ rest) := by
  rcases meanings_cases meanings (seg ++ rest) with refuses | ⟨w, mem, more, eq, reads⟩
  · exact refuses_named.2 (Refuses.bind refuses)
  · have chars : ∀ w ∈ meanings, w.1 ∈ keywords ∧ ∀ c ∈ w.1.toList, isIdentifierChar c = true := by decide
    obtain ⟨_, _, _, _, inner⟩ := exists_of_isIdentifier h
    obtain ⟨keyword, chars⟩ := chars w mem
    rcases boundary chars inner fence.stop eq with ⟨c, head, ident⟩ | ⟨here, _⟩
    · refine refuses_named.2 (Reads.bind_refuses reads (Refuses.bind ?_))
      cases more with
      | nil => cases head
      | cons d more =>
        obtain rfl : d = c := Option.some.inj head
        exact (reads_named.2 (reads_one ident)).absent_refuses
    · refine absurd ?_ other
      rw [here, String.ofList_toList]
      exact keyword

/-! ### Parameters -/

theorem refuses_parameter_head (name : ∀ c ∈ cs.head?, isIdentifierStart c = false) (dot : '.' ∉ cs.head?) :
    (parameter l).Refuses cs := by
  have none : Grammar.rest.Refuses cs := refuses_named.2 (refuses_word_head (w := "...") rfl dot)
  exact refuses_named.2 (none.opt.bind_refuses (refuses_identifier name).bind)

/-- An identifier without a type behind it is no parameter. -/
theorem refuses_parameter (h : isIdentifier seg = true) (stop : ∀ c ∈ rest.head?, isIdentifierChar c = false)
    (mark : '?' ∉ rest.head?) (colon : ':' ∉ (rest.dropWhile isBlank).head?) : (parameter l).Refuses (seg ++ rest) := by
  have dots : Grammar.rest.Refuses (seg ++ rest) := by
    refine refuses_named.2 (refuses_word_head (w := "...") rfl fun dot => ?_)
    obtain ⟨c, more, rfl, start, _⟩ := exists_of_isIdentifier h
    obtain rfl : c = '.' := Option.some.inj dot
    cases start
  have unmarked : Grammar.mark.Refuses rest := refuses_named.2 (refuses_word_head (w := "?") rfl mark)
  have untyped : (spaced ":").Refuses rest :=
    (reads_blanks rest).bind_refuses (refuses_word_head (w := ":") rfl colon).bind
  exact refuses_named.2 (dots.opt.bind_refuses
    ((reads_identifier h stop).bind_refuses (unmarked.opt.bind_refuses untyped.bind)))

/-! ## Types that are no parameters -/

/-- What begins like a type has such a character in front, and is no parameter. -/
structure Begins (cs : List Char) : Prop where
  opening : ∃ c more, cs = c :: more ∧ isOpening c = true
  untyped : ∀ (l : Level) ⦃rest : List Char⦄, Fence afterName rest → (parameter l).Refuses (cs ++ rest)

theorem Begins.not_head (h : Begins cs) (rest : List Char) {d : Char} (other : isOpening d = false) :
    d ∉ (cs ++ rest).head? := by
  obtain ⟨c, more, rfl, opening⟩ := h.opening
  exact not_mem_head_of opening other

theorem Begins.solid (h : Begins cs) (rest : List Char) : ∀ c ∈ (cs ++ rest).head?, isBlank c = false := by
  obtain ⟨c, more, rfl, opening⟩ := h.opening
  intro d head
  exact Option.some.inj head ▸ isBlank_of_isOpening opening

theorem begins_of_opening {c : Char} {more : List Char} (opening : isOpening c = true)
    (name : isIdentifierStart c = false) : Begins (c :: more) where
  opening := ⟨c, more, rfl, opening⟩
  untyped := fun l rest _ => by
    refine refuses_parameter_head (fun d head => Option.some.inj head ▸ name) fun dot => ?_
    obtain rfl : c = '.' := Option.some.inj dot
    cases opening

theorem begins_of_identifier (h : ∀ {rest : List Char}, Fence afterName rest →
    ∃ seg rest', isIdentifier seg = true ∧ cs ++ rest = seg ++ rest' ∧ Fence afterSegment rest') : Begins cs where
  opening := by
    obtain ⟨seg, rest, ident, eq, _⟩ := h (fence_nil _)
    obtain ⟨c, more, rfl, start, _⟩ := exists_of_isIdentifier ident
    rw [List.append_nil] at eq
    exact ⟨c, more ++ rest, eq, isOpening_of_start start⟩
  untyped := fun l rest fence => by
    obtain ⟨seg, rest, ident, eq, fence⟩ := h fence
    rw [eq]
    refine refuses_parameter ident fence.stop (fun mark => ?_) fun colon => ?_
    · exact absurd (fence.head mark (by decide)) (by decide)
    · exact absurd (fence.next _ colon) (by decide)

theorem begins_of_word (word : isIdentifier w.toList = true) {more : List Char}
    (opening : ∃ c cs, more = c :: cs ∧ isOpening c = true) : Begins (w.toList ++ ' ' :: more) := by
  obtain ⟨c, cs, rfl, opening⟩ := opening
  obtain ⟨d, ds, eq, start, _⟩ := exists_of_isIdentifier word
  refine ⟨⟨d, ds ++ ' ' :: c :: cs, by rw [eq]; rfl, isOpening_of_start start⟩, fun l rest _ => ?_⟩
  rw [List.append_assoc, List.cons_append]
  refine refuses_parameter word (fun d head => Option.some.inj head ▸ rfl) (not_mem_head (by decide)) ?_
  have solid : ¬isBlank c = true := Bool.eq_false_iff.1 (isBlank_of_isOpening opening)
  rw [List.dropWhile_cons_of_pos (by decide), List.cons_append, List.dropWhile_cons_of_neg solid]
  refine not_mem_head ?_
  rintro rfl
  cases opening

end DocTree.TypeExpr
