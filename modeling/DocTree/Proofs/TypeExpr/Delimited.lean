import DocTree.Proofs.TypeExpr.Follow

/-!
# Types are read the same in front of every delimiter

How a type is taken apart does not depend on what comes behind the delimiter that closes it.

* `local_path`, `local_number`, … : rules without levels read the same in front of another end;
* `refuses_of_union` : a union is left where no part, no operand and no suffix follows, so that a function, which ends
  with a union, is never taken for the part of one;
* `local_tuple`, `local_function`, … : rules that read types of a level do so if these types do;
* `local_primary`, `local_union`, `local_deep` : all types, by induction on the length of the text;
* `exists_of_delimited` : what is read in front of one delimiter is read in front of every other one.
-/

namespace DocTree.TypeExpr

open Rule Grammar Text

variable {k : Nat} {F : List Char → Prop} {cs rest : List Char} {e : Expr} {w : String}

/-! ## Rules without levels -/

theorem local_identifier : Local true k F identifier := by
  intro cs seg rest _ reads _
  obtain ⟨ident, rfl, stop⟩ := Reads.of_identifier reads
  refine ⟨seg, rfl, fun _ none => ?_, fun rest' alike _ => reads_identifier ident ?_⟩
  · rw [none] at ident
    cases ident
  · exact alike.not_head (by decide) (fun _ => isBlank_of_isIdentifierChar) stop

theorem local_path (point : ∀ ⦃cs⦄, F cs → '.' ∉ cs.head?) : Local true k F path := by
  have item : Local true k (fun cs => F cs ∨ Goes (do word "."; identifier) cs) (do word "."; identifier) :=
    (local_word (w := ".") (by decide)).andThen fun _ => local_identifier
  have more : Local false k F (many do word "."; identifier) :=
    .many consumes_point item fun cs after => (refuses_word_head (w := ".") rfl (point after)).bind
  exact (local_identifier.andThen fun _ => more.map).named

theorem local_query : Local true k AfterPrimary query := by
  have name : Local true k AfterPrimary path :=
    local_path fun cs after head => absurd (after.next.head head (by decide)) (by decide)
  exact ((local_word (w := "typeof") (by decide)).andThen fun _ => name.map.someBlanks).named

theorem local_string : Local true k F Grammar.string := by
  have quoted : ∀ {q : Char}, q ≠ '\\' → Local true k F (quotedBy q) := by
    intro q slash cs v rest _ reads _
    obtain ⟨used, rfl, same⟩ := exists_of_quotedBy slash reads
    exact ⟨q :: used, rfl, fun _ => List.cons_ne_nil _ _, fun rest' _ _ => same rest'⟩
  refine ((quoted (by decide)).orElse (quoted (by decide)) fun cs v rest reads _ => ?_).named
  obtain ⟨used, rfl, _⟩ := exists_of_quotedBy (by decide) reads
  rfl

theorem local_text (some : w.toList ≠ []) : Local true k F (text w) := fun _ _ _ _ reads _ =>
  ⟨w.toList, reads.of_text, fun _ => some, fun rest' _ _ => reads_text w rest'⟩

theorem local_digits : Local true k F digits := by
  intro cs ds rest _ reads _
  obtain ⟨d, mid, one, tail⟩ := reads_bind.1 reads
  obtain ⟨more, mid', run, last⟩ := reads_bind.1 tail
  obtain ⟨rfl, digit⟩ := one.of_one
  obtain ⟨rfl, rfl⟩ := run.of_run
  obtain ⟨rfl, rfl⟩ := last.of_pure
  refine ⟨d :: mid.takeWhile Char.isDigit, ?_, fun _ => List.cons_ne_nil _ _, fun rest' alike _ => ?_⟩
  · rw [List.cons_append, List.takeWhile_append_dropWhile]
  · have stop : ∀ c ∈ (mid.dropWhile Char.isDigit).head?, c.isDigit = false := by
      intro c head
      have := List.head?_dropWhile_not Char.isDigit mid
      rw [Option.mem_def.1 head] at this
      simpa using this
    have solid : ∀ c, Char.isDigit c = true → isBlank c = false := fun c digit =>
      isBlank_of_code (by have := code_of_isDigit digit; omega)
    have stop' := alike.not_head (by decide) solid stop
    exact (reads_one digit).bind ((reads_run (fun c mem => List.mem_takeWhile_imp mem) stop').bind (reads_pure ..))

theorem AfterPrimary.refuses_fraction (h : AfterPrimary cs) : (do text "."; digits : Rule (List Char)).Refuses cs := by
  refine (refuses_text ?_).bind
  rintro ⟨more, rfl⟩
  exact absurd (h.next.head (c := '.') rfl (by decide)) (by decide)

/-- Digits, with a fraction or without one, whatever they are made into. -/
theorem local_magnitude {made : List Char → Option (List Char) → Rule Expr}
    (always : ∀ whole fraction, ∃ e, made whole fraction = pure e) : Local true k AfterPrimary (do
      let whole ← digits
      let fraction ← Rule.opt do
        text "."
        digits
      made whole fraction) := by
  have fraction : Local true k (fun _ => True) (do text "."; digits) :=
    (local_text (w := ".") (by decide)).andThen fun _ => local_digits
  have last : ∀ whole fraction, Local false k AfterPrimary (made whole fraction) := by
    intro whole fraction
    obtain ⟨e, eq⟩ := always whole fraction
    exact eq ▸ local_pure e
  refine local_digits.andThen fun whole => fraction.optThen (fun _ => last ..) (last ..) fun cs e rest reads after => ?_
  obtain ⟨e', eq⟩ := always whole none
  rw [eq] at reads
  exact reads.of_pure.2 ▸ after.refuses_fraction

theorem local_number : Local true k AfterPrimary number := by
  refine (Local.optThen (local_text (w := "-") (by decide)) (fun sign => local_magnitude fun whole fraction => ?_)
    (local_magnitude fun whole fraction => ?_) fun cs e rest reads _ => ?_).named
  iterate 2
    cases fraction with
    | some => exact ⟨_, rfl⟩
    | none => cases Decimal.whole? whole <;> exact ⟨_, rfl⟩
  obtain ⟨ds, mid, digits, _⟩ := reads_bind.1 reads
  obtain ⟨d, mid', one, _⟩ := reads_bind.1 digits
  obtain ⟨rfl, digit⟩ := one.of_one
  refine refuses_text ?_
  rintro ⟨more, eq⟩
  obtain rfl : '-' = d := (List.cons.inj eq).1
  cases digit

theorem local_keyword : Local true k F keyword := by
  intro cs v rest _ reads _
  obtain ⟨w, mem, rfl, stop⟩ := Reads.of_keyword reads
  have some : ∀ m ∈ meanings, m.1.toList ≠ [] := by decide
  refine ⟨w.toList, rfl, fun _ => some _ mem, fun rest' alike _ => reads_keyword_stop mem ?_⟩
  exact alike.not_head (by decide) (fun _ => isBlank_of_isIdentifierChar) stop

theorem local_suffix : Local true k F suffix := by
  have close : Local true k F (word "]") := local_word (by decide)
  exact ((close.spaced (w := "[") (by decide)).mono (Nat.le_succ k) fun _ => id).named

/-! ## What a union leaves -/

theorem exists_last {α : Type} {r : Rule α} {as : List α} (consumes : Consumes (do spaced w; r))
    (h : (separated r w).Reads cs as rest) :
    (∃ a mid, r.Reads mid a rest) ∧ (do spaced w; r : Rule α).Refuses rest := by
  obtain ⟨a, mid, first, tail⟩ := reads_bind.1 h
  obtain ⟨more, mid', reads, last⟩ := reads_bind.1 tail
  obtain ⟨_, rfl⟩ := last.of_pure
  have repeats := Repeats.of_many consumes reads
  refine ⟨?_, repeats.refuses⟩
  rcases repeats.last with rfl | ⟨a', mid', reads⟩
  · exact ⟨a, cs, first⟩
  · obtain ⟨_, mid'', _, here⟩ := reads_bind.1 reads
    exact ⟨a', mid'', here⟩

theorem refuses_of_suffixed (h : (suffixed deep).Reads cs e rest) : suffix.Refuses rest := by
  obtain ⟨e', mid, _, tail⟩ := reads_bind.1 (reads_named.1 h)
  obtain ⟨suffixes, mid', more, last⟩ := reads_bind.1 tail
  obtain ⟨_, rfl⟩ := last.of_pure
  exact (Repeats.of_many consumes_suffix more).refuses

/-- Where a union ends, nothing follows that it could go on with. -/
theorem refuses_of_union (h : (union deep).Reads cs e rest) :
    (do spaced "|"; intersection deep : Rule Expr).Refuses rest ∧
    (do spaced "&"; suffixed deep : Rule Expr).Refuses rest ∧ suffix.Refuses rest := by
  obtain ⟨parts, _, reads, last⟩ := reads_bind.1 (reads_named.1 h)
  obtain ⟨_, rfl⟩ := last.of_pure
  obtain ⟨⟨part, mid, reads⟩, noPart⟩ := exists_last consumes_part reads
  obtain ⟨operands, _, reads, last⟩ := reads_bind.1 (reads_named.1 reads)
  obtain ⟨_, rfl⟩ := last.of_pure
  obtain ⟨⟨operand, mid, reads⟩, noOperand⟩ := exists_last consumes_operand reads
  exact ⟨noPart, noOperand, refuses_of_suffixed reads⟩

/-! ## Rules of a level -/

section

variable (types : Local true k (Next delimiters) deep.union) (targets : Local true k AfterOperand deep.operand)

include types in
theorem local_result : Local true k AfterPrimary deep.union := by
  refine types.widen (fun cs e rest reads after => ?_) fun cs cs' alike next _ => alike.next (List.Subset.refl _) next
  obtain ⟨noPart, noOperand, noSuffix⟩ := refuses_of_union (reads_deep_union.1 reads)
  rcases after with ((next | part) | operand) | suffix
  · exact next
  · exact absurd part noPart.not_goes
  · exact absurd operand noOperand.not_goes
  · exact absurd suffix noSuffix.not_goes

include targets in
theorem local_target : Local true k AfterPrimary deep.operand := by
  refine targets.widen (fun cs e rest reads after => ?_) fun cs cs' alike here after => ?_
  · exact after.resolve_right (refuses_of_suffixed (reads_deep_operand.1 reads)).not_goes
  · refine after.resolve_right fun suffix => ?_
    exact absurd (here.next _ (alike.symm.head (head_of_suffix suffix) (by decide)).1) (by decide)

theorem local_closed {α : Type} (a : α) (some : w.toList ≠ []) : Local true k F (do blanks; let _ ← word w; return a) :=
  (local_word some).map.blanks

theorem refuses_at_close {c : Char} (h : Next [c] cs) (other : opens c = false) : ∀ d ∈ cs.head?, opens d = false :=
  h.not_head (by simpa using other) fun _ => isBlank_of_opens

include types in
theorem local_list {c : Char} (mem : c ∈ delimiters) (comma : c ≠ ',') :
    Local true k (Next [c]) (separated deep.union ",") := by
  have more : Consumes (do spaced ","; deep.union) :=
    (consumes_spaced (by decide)).bind fun k _ => (deep_agrees k).union
  refine Local.separated (by decide) more (types.mono (Nat.le_refl k) fun cs after => ?_) fun cs after => ?_
  · rcases after with next | goes
    · exact next.mono (by simpa using mem)
    · exact (next_of_head (head_of_goes (w := ",") rfl (by decide) goes)).mono (by decide)
  · exact after.refuses_spaced (w := ",") rfl fun here => comma (List.mem_singleton.1 here).symm

include types in
theorem local_tuple : Local true (k + 1) F (tuple deep) := by
  have close : ∀ found : Option (List Expr),
      Local true k F (do blanks; let _ ← word "]"; return Expr.tuple (found.getD [])) :=
    fun _ => local_closed _ (by decide)
  have elements : Local true k (Next [']']) (elements deep) := (local_list types (by decide) (by decide)).named
  refine (Local.step (local_word (by decide)) fun _ => (elements.opt (fun found => close (some found)) (close none)
    (fun _ _ _ _ reads _ => next_of_word (w := "]") rfl reads) fun cs e rest reads _ => ?_).blanks).named
  have next : Next [']'] cs := next_of_word (w := "]") rfl reads
  exact refuses_named.2 (refuses_deep_union (refuses_at_close next (by decide))).bind

include types in
theorem local_arguments : Local true (k + 1) F (arguments deep) := by
  have args : Local true k (Next ['>']) (separated deep.union ",") := local_list types (by decide) (by decide)
  exact ((args.bind (fun found => local_closed found (w := ">") (by decide)) fun _ _ _ _ reads _ =>
    next_of_word (w := ">") rfl reads).spaced (w := "<") (by decide)).named

include types in
theorem local_reference : Local true (k + 1) AfterPrimary (reference deep) := by
  have name : Local true (k + 1) (fun cs => AfterPrimary cs ∨ Goes (arguments deep) cs) path := by
    refine local_path fun cs after head => ?_
    rcases after with after | ⟨_, _, reads⟩
    · exact absurd (after.next.head head (by decide)) (by decide)
    · have next := next_of_head (head_of_goes (w := "<") rfl (by decide) ⟨_, _, reads_named.1 reads⟩)
      exact absurd (next.head head (by decide)) (by decide)
  have args : Local true (k + 1) (fun _ => True) (arguments deep) := local_arguments types
  have tail : ∀ found : String, Local false (k + 1) AfterPrimary (do
      let o ← Rule.opt (arguments deep)
      return Expr.name found (o.getD [])) := by
    refine fun found => args.optThen (fun _ => local_pure _) (local_pure _) fun cs e rest reads after => ?_
    obtain ⟨_, rfl⟩ := reads.of_pure
    exact refuses_named.2 (after.next.refuses_spaced (w := "<") rfl (by decide)).bind
  refine (name.bind tail fun found cs e rest reads after => ?_).named
  obtain ⟨o, mid, reads, last⟩ := reads_bind.1 reads
  obtain ⟨_, rfl⟩ := last.of_pure
  rcases reads.of_opt with ⟨_, rfl⟩ | ⟨found, _, reads⟩
  · exact Or.inl after
  · exact Or.inr ⟨found, _, reads⟩

include types in
theorem local_typed {α : Type} (f : Expr → α) :
    Local true k (Next delimiters) (do spaced ":"; let e ← deep.union; return f e) :=
  (types.map.spaced (w := ":") (by decide)).mono (Nat.le_succ k) fun _ => id

include types in
theorem local_named {α : Type} (f : List Char → Option Unit → Expr → α) : Local true k (Next delimiters) (do
    let name ← identifier
    let marked ← Rule.opt mark
    spaced ":"
    let e ← deep.union
    return f name marked e) := by
  have marks : Local true k (fun _ => True) mark := (local_word (w := "?") (by decide)).named
  refine local_identifier.andThen fun name => marks.optThen (fun _ => local_typed types _) (local_typed types _)
    fun cs a rest reads _ => ?_
  have next := next_of_head (head_of_goes (w := ":") rfl (by decide) ⟨_, _, reads⟩)
  exact refuses_named.2 (refuses_word_head (w := "?") rfl fun head => absurd (next.head head (by decide)) (by decide))

include types in
theorem local_member : Local true k (Next delimiters) (member deep) :=
  (local_named types fun name _ e => (String.ofList name, e)).named

include types in
theorem local_parameter : Local true k (Next delimiters) (parameter deep) := by
  have dots : Local true k (fun _ => True) Grammar.rest := (local_word (w := "...") (by decide)).named
  have tail : ∀ isRest : Option Unit, Local true k (Next delimiters) _ := fun isRest =>
    local_named types fun name isOptional e => ((String.ofList name, (⟨isOptional.isSome, isRest.isSome⟩ : Marks)), e)
  refine (dots.optThen (fun isRest => tail (some isRest)) (tail none) fun cs a rest reads _ => ?_).named
  obtain ⟨seg, mid, name, _⟩ := reads_bind.1 reads
  obtain ⟨ident, rfl, _⟩ := Reads.of_identifier name
  obtain ⟨c, more, rfl, start, _⟩ := exists_of_isIdentifier ident
  refine refuses_named.2 (refuses_word_head (w := "...") rfl (not_mem_head ?_))
  rintro rfl
  cases start

include types in
theorem local_function : Local true (k + 1) AfterPrimary (function deep) := by
  have consumes : Consumes (do spaced ","; parameter deep) :=
    (consumes_spaced (by decide)).bind fun k _ => agree_parameter (deep_agrees k)
  have parameters : Local true k (Next [')']) (parameters deep) := by
    refine (Local.separated (by decide) consumes ((local_parameter types).mono (Nat.le_refl k) fun cs after => ?_)
      fun cs after => after.refuses_spaced (w := ",") rfl (by decide)).named
    rcases after with next | goes
    · exact next.mono (by decide)
    · exact (next_of_head (head_of_goes (w := ",") rfl (by decide) goes)).mono (by decide)
  have close : ∀ found : Option (List ((String × Marks) × Expr)), Local true k AfterPrimary (do
      blanks
      let _ ← word ")"
      spaced "=>"
      let result ← deep.union
      return Expr.function (found.getD []) result) := fun found => by
    have result := (local_result types).map (g := Expr.function (found.getD []))
    have arrow := (result.spaced (w := "=>") (by decide)).mono (Nat.le_succ k) fun _ => id
    exact ((local_word (w := ")") (by decide)).andThen fun _ => arrow).blanks
  refine (Local.step (local_word (by decide)) fun _ => (parameters.opt (fun found => close (some found)) (close none)
    (fun _ _ _ _ reads _ => next_of_word (w := ")") rfl reads) fun cs e rest reads _ => ?_).blanks).named
  have next : Next [')'] cs := next_of_word (w := ")") rfl reads
  refine refuses_named.2 (refuses_parameter_head (next.not_head (by decide) fun c start => ?_) fun dot => ?_).bind
  · exact isBlank_of_isIdentifierChar (isIdentifierChar_of_start start)
  · exact absurd (next.head dot (by decide)) (by decide)

include types in
theorem local_parenthesized : Local true (k + 1) F (parenthesized deep) :=
  (Local.step (local_word (by decide)) fun _ => (types.bind (fun e => local_closed e (w := ")") (by decide))
    fun _ _ _ _ reads _ => (next_of_word (w := ")") rfl reads).mono (by decide)).blanks).named

include targets in
theorem local_operator : Local true (k + 1) AfterPrimary (operator deep) := by
  have word : Local true (k + 1) (fun _ => True) operatorWord := by
    intro cs w rest _ reads _
    obtain ⟨mem, rfl⟩ := Reads.of_operatorWord reads
    have some : ∀ w ∈ operators, w.toList ≠ [] := by decide
    exact ⟨w.toList, rfl, fun _ => some w mem, fun rest' _ _ => reads_operatorWord mem rest'⟩
  exact (word.step fun _ => (local_target targets).map.someBlanks).named

/-- What may follow the last member: a separator, if any, and the end of the object. -/
def AfterMember (cs : List Char) : Prop :=
  Next ['\x7d'] cs ∨ ∃ rest, (do blanks; separator : Rule Unit).Reads cs () rest ∧ Next ['\x7d'] rest

theorem Reads.of_separator {u : Unit} (h : separator.Reads cs u rest) : cs = ';' :: rest ∨ cs = ',' :: rest := by
  rcases (reads_named.1 h).of_orElse with reads | ⟨_, reads⟩
  · exact Or.inl reads.of_word
  · exact Or.inr reads.of_word

theorem next_of_separator {mid : List Char} {u u' : Unit} (left : blanks.Reads cs u mid)
    (h : separator.Reads mid u' rest) :
    Next [';', ','] cs := by
  intro c head
  rw [← Reads.of_blanks left] at head
  rcases Reads.of_separator h with rfl | rfl
  · exact Option.some.inj head ▸ by simp
  · exact Option.some.inj head ▸ by simp

theorem refuses_separator (h : Next ['\x7d'] cs) : (do blanks; separator : Rule Unit).Refuses cs := by
  refine (reads_blanks cs).bind_refuses (refuses_named.2 (Refuses.orElse_refuses ?_ ?_))
  · exact refuses_word_head (w := ";") rfl fun head => absurd (h _ head) (by decide)
  · exact refuses_word_head (w := ",") rfl fun head => absurd (h _ head) (by decide)

/-- Nothing but another member goes on with the members. -/
theorem AfterMember.refuses (h : AfterMember cs) : (do blanks; separator; blanks; member deep).Refuses cs := by
  rcases h with next | ⟨rest, reads, next⟩
  · rcases Refuses.of_bind (refuses_separator next) with none | ⟨_, mid, left, none⟩
    · exact none.bind
    · exact left.bind_refuses none.bind
  · obtain ⟨_, mid, left, here⟩ := reads_bind.1 reads
    refine left.bind_refuses (here.bind_refuses ((reads_blanks rest).bind_refuses ?_))
    refine refuses_named.2 (refuses_identifier fun c head => ?_).bind
    have all : ∀ c ∈ ['\x7d'], isIdentifierStart c = false := by decide
    exact all c (next c head)

theorem local_separator : Local true k F separator := by
  refine (Local.orElse (local_word (w := ";") (by decide)) (local_word (w := ",") (by decide)) ?_).named
  intro cs _ rest reads _
  rw [reads.of_word]
  exact refuses_word_head (w := ";") rfl (not_mem_head (by decide))

theorem consumes_member : Consumes (do blanks; separator; blanks; member deep) := by
  intro cs m rest reads
  obtain ⟨_, mid, left, reads⟩ := reads_bind.1 reads
  obtain ⟨_, mid', here, reads⟩ := reads_bind.1 reads
  have shorter := (agree_blanks.bind fun _ => agree_member (deep_agrees _)) (Nat.lt_succ_self mid'.length)
  have first := (agree_blanks (Nat.lt_succ_self cs.length)).2 left
  have := shorter.2 reads
  rcases Reads.of_separator here with rfl | rfl <;> rw [List.length_cons] at first <;> omega

include types in
theorem local_members : Local true k (Next ['\x7d']) (members deep) := by
  have member : Local true k (fun cs => AfterMember cs ∨ Goes (do blanks; separator; blanks; member deep) cs)
      (member deep) := by
    refine (local_member types).mono (Nat.le_refl k) fun cs after => ?_
    rcases after with (next | ⟨rest, reads, _⟩) | ⟨_, _, reads⟩
    · exact next.mono (by decide)
    · obtain ⟨_, mid, left, here⟩ := reads_bind.1 reads
      exact (next_of_separator left here).mono (by decide)
    · obtain ⟨_, mid, left, reads⟩ := reads_bind.1 reads
      obtain ⟨_, mid', here, _⟩ := reads_bind.1 reads
      exact (next_of_separator left here).mono (by decide)
  have item := (local_separator.andThen fun _ => member.blanks).blanks
  have all : Local false k AfterMember (Rule.many do blanks; separator; blanks; Grammar.member deep) :=
    .many consumes_member item fun cs after => after.refuses
  have last : ∀ found : List (String × Expr), Local false k (Next ['\x7d']) (do
      let _ ← Rule.opt do
        blanks
        separator
      return found) := by
    intro found
    refine local_separator.blanks.optThen (fun _ => local_pure _) (local_pure _) fun cs a rest reads next => ?_
    exact refuses_separator (reads.of_pure.2 ▸ next)
  have ends : ∀ {found : List (String × Expr)} {cs a rest}, (do
      let _ ← Rule.opt do
        blanks
        separator
      return found : Rule _).Reads cs a rest → Next ['\x7d'] rest → AfterMember cs := by
    intro found cs a rest reads next
    obtain ⟨o, mid, reads, last⟩ := reads_bind.1 reads
    obtain ⟨_, rfl⟩ := last.of_pure
    rcases reads.of_opt with ⟨_, rfl⟩ | ⟨_, _, reads⟩
    · exact Or.inl next
    · exact Or.inr ⟨_, reads, next⟩
  refine (member.bind (fun first => all.bind (fun more => last (first :: more)) fun _ _ _ _ => ends)
    fun first cs a rest reads next => ?_).named
  obtain ⟨more, mid, reads, tail⟩ := reads_bind.1 reads
  exact (Repeats.of_many consumes_member reads).follows (ends tail next)

include types in
theorem local_object : Local true (k + 1) F (object deep) := by
  have close : ∀ found : Option (List (String × Expr)), Local true k F (do
      blanks
      let _ ← word "\x7d"
      return Expr.object (found.getD [])) := fun _ => local_closed _ (by decide)
  refine (Local.step (local_word (by decide)) fun _ => ((local_members types).opt (fun found => close (some found))
    (close none) (fun _ _ _ _ reads _ => next_of_word (w := "\x7d") rfl reads)
    fun cs e rest reads _ => ?_).blanks).named
  have next : Next ['\x7d'] cs := next_of_word (w := "\x7d") rfl reads
  refine refuses_named.2 (refuses_named.2 (refuses_identifier (next.not_head (by decide) fun c start => ?_)).bind).bind
  exact isBlank_of_isIdentifierChar (isIdentifierChar_of_start start)

/-! ## All types -/

include types targets in
/-- Whichever alternative reads a type reads it in front of another end, where those before it read nothing
again. -/
theorem local_primary : Local true (k + 1) AfterPrimary (primary deep) := by
  intro cs e rest lt reads after
  rcases (reads_named.1 reads).of_orElse with reads | ⟨_, reads⟩
  · exact (local_function types).through (fun _ _ _ reads _ => primary_function reads) lt reads after
  rcases reads.of_orElse with reads | ⟨_, reads⟩
  · exact (local_parenthesized types).through (fun _ _ _ reads _ => primary_parenthesized reads) lt reads after
  rcases reads.of_orElse with reads | ⟨_, reads⟩
  · exact (local_tuple types).through (fun _ _ _ reads _ => primary_tuple reads) lt reads after
  rcases reads.of_orElse with reads | ⟨_, reads⟩
  · exact (local_object types).through (fun _ _ _ reads _ => primary_object reads) lt reads after
  rcases reads.of_orElse with reads | ⟨operator, reads⟩
  · exact (local_operator targets).through (fun _ _ _ reads _ => primary_operator reads) lt reads after
  rcases reads.of_orElse with reads | ⟨_, reads⟩
  · exact local_query.through (fun _ _ _ reads _ => primary_query reads) lt reads after
  rcases reads.of_orElse with reads | ⟨_, reads⟩
  · exact local_string.map.through (fun _ _ _ reads _ => primary_string reads) lt reads after
  rcases reads.of_orElse with reads | ⟨_, reads⟩
  · exact local_number.through (fun _ _ _ reads _ => primary_number reads) lt reads after
  rcases reads.of_orElse with reads | ⟨keyword, reads⟩
  · exact local_keyword.map.through (fun _ _ _ reads _ => primary_keyword reads) lt reads after
  rcases reads.of_orElse with reads | ⟨_, reads⟩
  · obtain ⟨used, rfl, some, same⟩ := local_reference types lt reads after
    refine ⟨used, rfl, some, fun rest' alike after' => ?_⟩
    have noKeyword : Grammar.keyword.Refuses (used ++ rest) := by
      refine refuses_of_not_goes fun ⟨v, mid, reads⟩ => ?_
      exact (reads_literal reads).not_refuses keyword
    exact primary_reference (same alike after') operator noKeyword alike.symm after after'
  · cases reads

include types targets in
theorem local_suffixed : Local true (k + 1) AfterOperand (suffixed deep) := by
  have more : Local false (k + 1) AfterOperand (Rule.many suffix) := by
    refine .many consumes_suffix local_suffix fun cs after => ?_
    exact refuses_named.2 (after.next.refuses_spaced (w := "[") rfl (by decide)).bind
  refine ((local_primary types targets).bind (fun e => more.map) fun e cs e' rest reads after => ?_).named
  obtain ⟨suffixes, mid, reads, last⟩ := reads_bind.1 reads
  obtain ⟨_, rfl⟩ := last.of_pure
  exact (Repeats.of_many consumes_suffix reads).follows after

include types targets in
theorem local_intersection : Local true (k + 1) AfterPart (intersection deep) :=
  (Local.separated (by decide) consumes_operand (local_suffixed types targets) fun _ after =>
    after.next.refuses_spaced (w := "&") rfl (by decide)).map.named

include types targets in
theorem local_union : Local true (k + 1) (Next delimiters) (union deep) :=
  (Local.separated (by decide) consumes_part (local_intersection types targets) fun _ next =>
    next.refuses_spaced (w := "|") rfl (by decide)).map.named

end

/-- Types of every length are read the same in front of another end. -/
theorem local_deep (k : Nat) : Local true k (Next delimiters) deep.union ∧ Local true k AfterOperand deep.operand := by
  induction k with
  | zero => exact ⟨fun _ _ _ lt => absurd lt (Nat.not_lt_zero _), fun _ _ _ lt => absurd lt (Nat.not_lt_zero _)⟩
  | succ k ih =>
    obtain ⟨types, targets⟩ := ih
    exact ⟨(local_union types targets).congr fun _ _ _ => reads_deep_union,
      (local_suffixed types targets).congr fun _ _ _ => reads_deep_operand⟩

/-- What is read in front of a delimiter is read in front of every other delimiter, and at the end of a text. -/
theorem exists_of_delimited (h : deep.union.Reads cs e rest) (next : Next delimiters rest) :
    ∃ used, cs = used ++ rest ∧ used ≠ [] ∧
      ∀ rest', Next delimiters rest' → deep.union.Reads (used ++ rest') e rest' := by
  obtain ⟨used, eq, some, same⟩ := (local_deep (cs.length + 1)).1 (Nat.lt_succ_self _) h next
  exact ⟨used, eq, some rfl, fun rest' next' => same (.of_next next next') next'⟩

end DocTree.TypeExpr
