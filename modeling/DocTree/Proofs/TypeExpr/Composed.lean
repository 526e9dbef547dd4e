import DocTree.Proofs.TypeExpr.Delimited

/-!
# Types put together are read as such

* `Denotes text e` : up to blanks around it, the text is read as the expression in front of every delimiter;
  `parse_iff_denotes` : these are the texts that are accepted;
* `Denotes.parenthesized`, `Denotes.tuple`, `Denotes.arguments`, … : what is put together from such texts is read part
  by part, whatever the parts are.
-/

namespace DocTree.TypeExpr

open Rule Grammar Text

variable {text text' cs mid mid' rest : List Char} {e e' : Expr} {w : String}

/-! ## One part alone -/

theorem reads_suffixed_alone (h : (primary deep).Reads cs e rest) (next : Next ('&' :: '|' :: delimiters) rest) :
    (suffixed deep).Reads cs e rest := by
  have none : suffix.Refuses rest := refuses_named.2 (next.refuses_spaced (w := "[") rfl (by decide)).bind
  exact reads_named.2 (h.bind ((Repeats.stop none).many.bind (reads_pure ..)))

theorem reads_intersection_alone (h : (suffixed deep).Reads cs e rest) (next : Next ('|' :: delimiters) rest) :
    (intersection deep).Reads cs e rest := by
  have none : (do spaced "&"; suffixed deep : Rule Expr).Refuses rest :=
    (next.refuses_spaced (w := "&") rfl (by decide)).bind
  have alone : (separated (suffixed deep) "&").Reads cs [e] rest :=
    h.bind ((Repeats.stop none).many.bind (reads_pure ..))
  exact reads_named.2 (alone.bind (reads_pure ..))

theorem reads_union_alone (h : (intersection deep).Reads cs e rest) (next : Next delimiters rest) :
    deep.union.Reads cs e rest := by
  have none : (do spaced "|"; intersection deep : Rule Expr).Refuses rest :=
    (next.refuses_spaced (w := "|") rfl (by decide)).bind
  have alone : (separated (intersection deep) "|").Reads cs [e] rest :=
    h.bind ((Repeats.stop none).many.bind (reads_pure ..))
  exact reads_deep_union.2 (reads_named.2 (alone.bind (reads_pure ..)))

theorem reads_operand_alone (h : (suffixed deep).Reads cs e rest) (next : Next delimiters rest) :
    deep.union.Reads cs e rest :=
  reads_union_alone (reads_intersection_alone h (next.mono (List.subset_cons_self ..))) next

theorem reads_primary_alone (h : (primary deep).Reads cs e rest) (next : Next delimiters rest) :
    deep.union.Reads cs e rest :=
  reads_operand_alone (reads_suffixed_alone h (next.mono (by decide))) next

theorem reads_two {α : Type} {r : Rule α} {a b : α} (consumes : Consumes (do spaced w; r)) (first : r.Reads cs a mid)
    (between : (spaced w).Reads mid () mid') (second : r.Reads mid' b rest) (last : (spaced w).Refuses rest) :
    (separated r w).Reads cs [a, b] rest := by
  have item : (do spaced w; r : Rule α).Reads mid b rest := between.bind second
  exact first.bind ((Repeats.step item (consumes item) (.stop last.bind)).many.bind (reads_pure ..))

/-! ## Texts of types -/

/-- Up to blanks around it, the text is read as the expression in front of every delimiter. -/
def Denotes (text : List Char) (e : Expr) : Prop := ∃ before cs after, text = before ++ (cs ++ after) ∧
  (∀ c ∈ before, isBlank c = true) ∧ (∀ c ∈ after, isBlank c = true) ∧
  ∀ rest, Next delimiters rest → deep.union.Reads (cs ++ rest) e rest

theorem next_blank (h : ∀ c ∈ cs, isBlank c = true) {stops : List Char} : Next stops cs := by
  intro c head
  rw [List.dropWhile_eq_nil_iff.2 h] at head
  cases head

theorem solid_of_reads (h : deep.union.Reads cs e rest) : ∀ c ∈ cs.head?, isBlank c = false := by
  obtain ⟨c, more, rfl, opening⟩ := opens_of_goes (goes_union ⟨_, _, reads_deep_union.1 h⟩)
  exact fun d head => Option.some.inj head ▸ isBlank_of_opens opening

/-- The texts that are accepted are those that are read so in front of every delimiter. -/
theorem parse_iff_denotes {s : String} : parse s = .ok e ↔ Denotes s.toList e := by
  have levels : ∀ {mid}, mid.length ≤ s.toList.length → ∀ e' rest,
      (level (s.toList.length + 1)).union.Reads mid e' rest ↔ deep.union.Reads mid e' rest := by
    intro mid le e' rest
    have same := ((agree_deep (Nat.le_refl (s.toList.length + 1))).union (Nat.lt_succ_of_le le)).1
    unfold Reads
    rw [same]
  have read : parse s = .ok e ↔ (type (s.toList.length + 1)).Reads s.toList e [] := by
    unfold parse Reads
    cases found : (type (s.toList.length + 1) s.toList).result with
    | none => simp [found]
    | some p =>
      obtain ⟨e', rest⟩ := p
      cases rest with
      | nil => simp [found]
      | cons c cs => simp [found]
  rw [read]
  constructor
  · intro h
    obtain ⟨_, mid, left, h⟩ := reads_bind.1 (reads_named.1 h)
    obtain ⟨e', behind, type, h⟩ := reads_bind.1 h
    obtain ⟨_, _, right, last⟩ := reads_bind.1 h
    obtain ⟨rfl, rfl⟩ := last.of_pure
    obtain rfl := Reads.of_blanks left
    have after : ∀ c ∈ behind, isBlank c = true := List.dropWhile_eq_nil_iff.1 (Reads.of_blanks right).symm
    have type := (levels (List.dropWhile_suffix _).length_le _ _).1 type
    obtain ⟨cs, eq, _, same⟩ := exists_of_delimited type (next_blank after)
    refine ⟨s.toList.takeWhile isBlank, cs, behind, ?_, fun c mem => List.mem_takeWhile_imp mem, after, same⟩
    rw [← eq, List.takeWhile_append_dropWhile]
  · rintro ⟨before, cs, after, eq, left, right, same⟩
    have type := same after (next_blank right)
    have le : (cs ++ after).length ≤ s.toList.length := by
      rw [eq]
      exact (List.suffix_append before (cs ++ after)).length_le
    have type := (levels le _ _).2 type
    have blanks : blanks.Reads after () [] := by
      have reads := reads_blanks after
      rwa [List.dropWhile_eq_nil_iff.2 right] at reads
    rw [eq] at type ⊢
    exact reads_named.2 ((reads_blanks_run left (solid_of_reads (same after (next_blank right)))).bind
      (type.bind (blanks.bind (reads_pure ..))))

theorem blank_space : ∀ c ∈ [' '], isBlank c = true := by decide

theorem parse_of_reads {s : String} (h : deep.union.Reads s.toList e rest) (blank : ∀ c ∈ rest, isBlank c = true) :
    parse s = .ok e := by
  obtain ⟨cs, eq, _, same⟩ := exists_of_delimited h (next_blank blank)
  exact parse_iff_denotes.2 ⟨[], cs, rest, eq, List.forall_mem_nil _, blank, same⟩

namespace Denotes

theorem pad (h : Denotes text e) {before after : List Char} (left : ∀ c ∈ before, isBlank c = true)
    (right : ∀ c ∈ after, isBlank c = true) : Denotes (before ++ (text ++ after)) e := by
  obtain ⟨before', cs, after', rfl, left', right', same⟩ := h
  refine ⟨before ++ before', cs, after' ++ after, by simp only [List.append_assoc], ?_, ?_, same⟩
  · exact List.forall_mem_append.2 ⟨left, left'⟩
  · exact List.forall_mem_append.2 ⟨right', right⟩

theorem reads (h : Denotes text e) (next : Next delimiters rest) : ∃ mid after, blanks.Reads (text ++ rest) () mid ∧
    deep.union.Reads mid e (after ++ rest) ∧ ∀ c ∈ after, isBlank c = true := by
  obtain ⟨before, cs, after, rfl, left, right, same⟩ := h
  have type := same (after ++ rest) ((next_append right).2 next)
  refine ⟨cs ++ (after ++ rest), after, ?_, type, right⟩
  rw [List.append_assoc, List.append_assoc]
  exact reads_blanks_run left (solid_of_reads type)

/-- A type up to a delimiter. -/
theorem closed (h : Denotes text e) {c : Char} (mem : c ∈ delimiters) (rest : List Char) :
    ∃ mid mid', blanks.Reads (text ++ c :: rest) () mid ∧ deep.union.Reads mid e mid' ∧
      Next delimiters mid' ∧ blanks.Reads mid' () (c :: rest) := by
  have solid : ∀ c ∈ delimiters, isBlank c = false := by decide
  have next : Next delimiters (c :: rest) := next_cons mem (solid c mem) rest
  obtain ⟨mid, after, left, type, blank⟩ := h.reads next
  refine ⟨mid, after ++ c :: rest, left, type, (next_append blank).2 next, reads_blanks_run blank fun d head => ?_⟩
  exact Option.some.inj head ▸ solid c mem

/-- A type in parentheses is read as the type. -/
theorem parenthesized (h : Denotes text e) (rest : List Char) :
    (primary deep).Reads ('(' :: (text ++ ')' :: rest)) e rest := by
  obtain ⟨mid, mid', left, type, _, right⟩ := h.closed (c := ')') (by decide) rest
  exact primary_parenthesized (reads_named.2 ((reads_word "(" _).bind (left.bind (type.bind (right.bind
    ((reads_word ")" rest).bind (reads_pure ..)))))))

/-- Two types with a comma between them, up to a delimiter. -/
theorem pair (h : Denotes text e) (h' : Denotes text' e') {c : Char} (mem : c ∈ delimiters) (comma : c ≠ ',')
    (rest : List Char) : ∃ mid mid', blanks.Reads (text ++ ',' :: (text' ++ c :: rest)) () mid ∧
      (separated deep.union ",").Reads mid [e, e'] mid' ∧ blanks.Reads mid' () (c :: rest) := by
  obtain ⟨mid, behind, left, type, _, right⟩ := h.closed (c := ',') (by decide) (text' ++ c :: rest)
  obtain ⟨mid', behind', left', type', next', right'⟩ := h'.closed mem rest
  have consumes : Consumes (do spaced ","; deep.union) :=
    (consumes_spaced (by decide)).bind fun k _ => (deep_agrees k).union
  have last : (spaced ",").Refuses behind' := by
    refine right'.bind_refuses (refuses_word_head (w := ",") rfl ?_).bind
    exact not_mem_head (Ne.symm comma)
  exact ⟨mid, behind', left, reads_two consumes type (right.bind ((reads_word "," _).bind left')) type' last, right'⟩

/-- Two types in brackets are read as their tuple. -/
theorem tuple (h : Denotes text e) (h' : Denotes text' e') (rest : List Char) :
    (primary deep).Reads ('[' :: (text ++ ',' :: (text' ++ ']' :: rest))) (.tuple [e, e']) rest := by
  obtain ⟨mid, mid', left, types, right⟩ := h.pair h' (c := ']') (by decide) (by decide) rest
  have some : mid ≠ [] := by
    rintro rfl
    obtain ⟨_, _, first, _⟩ := reads_bind.1 types
    have none : deep.union.Refuses [] := refuses_deep_union fun c head => by cases head
    exact none.not_goes ⟨_, _, first⟩
  have elements : (elements deep).Reads mid [e, e'] mid' := reads_named.2 types
  exact primary_tuple (reads_named.2 ((reads_word "[" _).bind (left.bind ((elements.opt some).bind (right.bind
    ((reads_word "]" rest).bind (reads_pure ..)))))))

/-- Parentheses with brackets behind them are read as an array. -/
theorem array (h : Denotes text e) (next : Next ('&' :: '|' :: delimiters) rest) :
    (suffixed deep).Reads ('(' :: (text ++ ')' :: '[' :: ']' :: rest)) (.array e) rest := by
  have left : (spaced "[").Reads ('[' :: ']' :: rest) () (']' :: rest) :=
    reads_spaced (w := "[") rfl (by decide) (List.forall_mem_nil _) (List.forall_mem_nil _) fun c head =>
      Option.some.inj head ▸ rfl
  have item : suffix.Reads ('[' :: ']' :: rest) () rest := reads_named.2 (left.bind (reads_word "]" rest))
  have none : suffix.Refuses rest := refuses_named.2 (next.refuses_spaced (w := "[") rfl (by decide)).bind
  exact reads_named.2 ((h.parenthesized _).bind ((Repeats.step item (consumes_suffix item) (.stop none)).many.bind
    (reads_pure ..)))

theorem joined {c : Char} (spelled : w.toList = [c]) (solid : isBlank c = false) (rest : List Char) :
    (spaced w).Reads (' ' :: c :: ' ' :: '(' :: rest) () ('(' :: rest) := by
  have begin : ∀ d ∈ ('(' :: rest).head?, isBlank d = false := fun d head => Option.some.inj head ▸ rfl
  have reads := reads_spaced spelled solid blank_space blank_space begin
  rwa [spelled] at reads

/-- Two types in parentheses with `&` between them are read as their intersection. -/
theorem intersection (h : Denotes text e) (h' : Denotes text' e') (next : Next delimiters rest) :
    deep.union.Reads ('(' :: (text ++ ')' :: ' ' :: '&' :: ' ' :: '(' :: (text' ++ ')' :: rest)))
      (.intersection [e, e']) rest := by
  have next' : Next ('|' :: delimiters) rest := next.mono (List.subset_cons_self ..)
  have first := reads_suffixed_alone (h.parenthesized (' ' :: '&' :: ' ' :: '(' :: (text' ++ ')' :: rest)))
    ((next_append blank_space).2 (next_cons List.mem_cons_self (by decide) _))
  have second := reads_suffixed_alone (h'.parenthesized rest) (next'.mono (List.subset_cons_self ..))
  have both := reads_two consumes_operand first (joined (w := "&") rfl (by decide) _) second
    (next'.refuses_spaced (w := "&") rfl (by decide))
  exact reads_union_alone (reads_named.2 (both.bind (reads_pure ..))) next

/-- Two types in parentheses with `|` between them are read as their union. -/
theorem union (h : Denotes text e) (h' : Denotes text' e') (next : Next delimiters rest) :
    deep.union.Reads ('(' :: (text ++ ')' :: ' ' :: '|' :: ' ' :: '(' :: (text' ++ ')' :: rest)))
      (.union [e, e']) rest := by
  have between : Next ('|' :: delimiters) (' ' :: '|' :: ' ' :: '(' :: (text' ++ ')' :: rest)) :=
    (next_append blank_space).2 (next_cons List.mem_cons_self (by decide) _)
  have first := reads_intersection_alone (reads_suffixed_alone (h.parenthesized _)
    (between.mono (List.subset_cons_self ..))) between
  have second := reads_intersection_alone (reads_suffixed_alone (h'.parenthesized rest) (next.mono (by decide)))
    (next.mono (by decide))
  have both := reads_two consumes_part first (joined (w := "|") rfl (by decide) _) second
    (next.refuses_spaced (w := "|") rfl (by decide))
  exact reads_deep_union.2 (reads_named.2 (both.bind (reads_pure ..)))

/-- A word in front of a type in parentheses is read with it. -/
theorem operator (h : Denotes text e) (word : w ∈ operators) (next : Next ('&' :: '|' :: delimiters) rest) :
    (primary deep).Reads (w.toList ++ ' ' :: '(' :: (text ++ ')' :: rest)) (.operator w e) rest := by
  have blank : someBlanks.Reads (' ' :: '(' :: (text ++ ')' :: rest)) () ('(' :: (text ++ ')' :: rest)) :=
    reads_someBlanks (c := ' ') (by decide) ('(' :: (text ++ ')' :: rest))
  have target := reads_deep_operand.2 (reads_suffixed_alone (h.parenthesized rest) next)
  exact primary_operator (reads_named.2 ((reads_operatorWord word _).bind (blank.bind (target.bind (reads_pure ..)))))

/-- A name is read with its two arguments, even if it is a word elsewhere. -/
theorem arguments {name : String} (ident : isIdentifier name.toList = true) (other : name ∉ keywords)
    (h : Denotes text e) (h' : Denotes text' e') (rest : List Char) :
    (primary deep).Reads (name.toList ++ '<' :: (text ++ ',' :: (text' ++ '>' :: rest))) (.name name [e, e']) rest := by
  obtain ⟨mid, mid', left, types, right⟩ := h.pair h' (c := '>') (by decide) (by decide) rest
  have stop : ∀ c ∈ ('<' :: (text ++ ',' :: (text' ++ '>' :: rest))).head?, isIdentifierChar c = false := fun c head =>
    Option.some.inj head ▸ rfl
  have solid : ∀ {b mid'}, '<' :: (text ++ ',' :: (text' ++ '>' :: rest)) = b :: mid' → isBlank b = true → False := by
    intro b mid' eq blank
    rw [← (List.cons.inj eq).1] at blank
    cases blank
  have path : path.Reads (name.toList ++ '<' :: (text ++ ',' :: (text' ++ '>' :: rest))) name
      ('<' :: (text ++ ',' :: (text' ++ '>' :: rest))) := by
    have none : (do word "."; identifier : Rule (List Char)).Refuses ('<' :: (text ++ ',' :: (text' ++ '>' :: rest))) :=
      (refuses_word_head (w := ".") rfl (not_mem_head (by decide))).bind
    have meant : ".".intercalate ([name.toList].map String.ofList) = name := by simp
    refine reads_named.2 ((reads_identifier ident stop).bind ((Repeats.stop none).many.bind ?_))
    rw [meant]
    exact reads_pure ..
  have args : (Grammar.arguments deep).Reads ('<' :: (text ++ ',' :: (text' ++ '>' :: rest))) [e, e'] rest := by
    have begin : (spaced "<").Reads ('<' :: (text ++ ',' :: (text' ++ '>' :: rest))) () mid :=
      (reads_blanks_cons (by decide) _).bind ((reads_word "<" _).bind left)
    exact reads_named.2 (begin.bind (types.bind (right.bind ((reads_word ">" rest).bind (reads_pure ..)))))
  have read : (reference deep).Reads (name.toList ++ '<' :: (text ++ ',' :: (text' ++ '>' :: rest)))
      (.name name [e, e']) rest := reads_named.2 (path.bind ((args.opt nofun).bind (reads_pure ..)))
  refine primary_name read ?_ ?_ ?_
  · exact refuses_operator_name ident stop fun _ _ b mid' eq blank _ => (solid eq blank).elim
  · exact refuses_query_name ident stop fun b mid' eq blank => (solid eq blank).elim
  · exact refuses_keyword ident (fence_cons (by decide) (by decide) _)
      (by rwa [String.ofList_toList])

/-- A type behind an arrow is read as a function without parameters. -/
theorem function (h : Denotes text e) (next : Next delimiters rest) : ∃ after, (∀ c ∈ after, isBlank c = true) ∧
    (primary deep).Reads ('(' :: ')' :: ' ' :: '=' :: '>' :: (text ++ rest)) (.function [] e) (after ++ rest) := by
  obtain ⟨mid, after, left, type, blank⟩ := h.reads next
  have none : (parameters deep).Refuses (')' :: ' ' :: '=' :: '>' :: (text ++ rest)) := by
    refine refuses_named.2 (refuses_parameter_head (fun c head => ?_) (not_mem_head (by decide))).bind
    exact Option.some.inj head ▸ rfl
  have solid := reads_blanks_cons (c := ')') (by decide) (' ' :: '=' :: '>' :: (text ++ rest))
  have arrow : (spaced "=>").Reads (' ' :: '=' :: '>' :: (text ++ rest)) () mid := by
    have blank : blanks.Reads (' ' :: '=' :: '>' :: (text ++ rest)) () ("=>".toList ++ (text ++ rest)) :=
      reads_blanks_run blank_space fun c head => Option.some.inj head ▸ rfl
    exact blank.bind ((reads_word "=>" _).bind left)
  refine ⟨after, blank, primary_function (reads_named.2 ((reads_word "(" _).bind (solid.bind (none.opt.bind (solid.bind
    ((reads_word ")" _).bind (arrow.bind (type.bind (reads_pure ..)))))))))⟩

/-- A type behind a name and a colon, up to a delimiter. -/
theorem member (h : Denotes text e) {name : List Char} (ident : isIdentifier name = true) {c : Char}
    (mem : c ∈ delimiters) (rest : List Char) : ∃ mid, (Grammar.member deep).Reads (name ++ ':' :: (text ++ c :: rest))
      (String.ofList name, e) mid ∧ blanks.Reads mid () (c :: rest) := by
  obtain ⟨mid, mid', left, type, _, right⟩ := h.closed mem rest
  have stop : ∀ d ∈ (':' :: (text ++ c :: rest)).head?, isIdentifierChar d = false := fun d head =>
    Option.some.inj head ▸ rfl
  have unmarked : mark.Refuses (':' :: (text ++ c :: rest)) :=
    refuses_named.2 (refuses_word_head (w := "?") rfl (not_mem_head (by decide)))
  have colon : (spaced ":").Reads (':' :: (text ++ c :: rest)) () mid :=
    (reads_blanks_cons (by decide) _).bind ((reads_word ":" _).bind left)
  exact ⟨mid', reads_named.2 ((reads_identifier ident stop).bind (unmarked.opt.bind (colon.bind (type.bind
    (reads_pure ..))))), right⟩

/-- Two members in braces are read as an object. -/
theorem object {name name' : List Char} (ident : isIdentifier name = true) (ident' : isIdentifier name' = true)
    (h : Denotes text e) (h' : Denotes text' e') (rest : List Char) :
    (primary deep).Reads
      ('\x7b' :: ' ' :: (name ++ ':' :: (text ++ ';' :: ' ' :: (name' ++ ':' :: (text' ++ '\x7d' :: rest)))))
      (.object [(String.ofList name, e), (String.ofList name', e')]) rest := by
  obtain ⟨mid', second, right⟩ := h'.member ident' (c := '\x7d') (by decide) rest
  obtain ⟨mid, first, between⟩ :=
    h.member ident (c := ';') (by decide) (' ' :: (name' ++ ':' :: (text' ++ '\x7d' :: rest)))
  have solid : ∀ {n : List Char}, isIdentifier n = true → ∀ more, blanks.Reads (' ' :: (n ++ more)) () (n ++ more) := by
    intro n ident more
    obtain ⟨c, more', rfl, start, _⟩ := exists_of_isIdentifier ident
    exact reads_blanks_run blank_space fun d head =>
      Option.some.inj head ▸ isBlank_of_isIdentifierChar (isIdentifierChar_of_start start)
  have next : Next ['\x7d'] mid' := next_of_head (by rw [← Reads.of_blanks right]; rfl)
  have item : (do blanks; separator; blanks; Grammar.member deep).Reads mid (String.ofList name', e') mid' :=
    between.bind ((reads_named.2 (reads_word ";" _).orElse).bind ((solid ident' _).bind second))
  have ends : (do blanks; separator; blanks; Grammar.member deep).Refuses mid' := AfterMember.refuses (Or.inl next)
  have found : (members deep).Reads (name ++ ':' :: (text ++ ';' :: ' ' :: (name' ++ ':' :: (text' ++ '\x7d' :: rest))))
      [(String.ofList name, e), (String.ofList name', e')] mid' :=
    reads_named.2 (first.bind ((Repeats.step item (consumes_member item) (.stop ends)).many.bind
      ((refuses_separator next).opt.bind (reads_pure ..))))
  have some : name ++ ':' :: (text ++ ';' :: ' ' :: (name' ++ ':' :: (text' ++ '\x7d' :: rest))) ≠ [] := by simp
  exact primary_object (reads_named.2 ((reads_word "\x7b" _).bind ((solid ident _).bind ((found.opt some).bind
    (right.bind ((reads_word "\x7d" rest).bind (reads_pure ..)))))))

end Denotes

end DocTree.TypeExpr
