import DocTree.Proofs.TypeExpr.Tokens

/-!
# Levels

The level of a rule limits how long a text it can read, and makes no other difference.

* `Agree k r r'` : two rules read the same of texts with less than `k` characters; `Agree.bind`, `Agree.step`, …;
* `agree_union`, `agree_suffixed` : if two levels agree on some texts, their next levels agree on longer ones;
* `deep` : the rules with as many levels as a text needs; `reads_deep_union`, `reads_deep_operand` : these rules go
  round in circles without levels.
-/

namespace DocTree.TypeExpr

open Rule Grammar Text

namespace Rule

variable {α β : Type} {r r' : Rule α} {s s' : Rule β} {k : Nat} {f f' : α → Rule β} {w : String}

/-- Both rules read the same of each text with less than `k` characters, and leave no more than the text. -/
def Agree (k : Nat) (r r' : Rule α) : Prop := ∀ ⦃cs⦄, cs.length < k → (r' cs).result = (r cs).result ∧
  ∀ ⦃a rest⦄, r.Reads cs a rest → rest.length ≤ cs.length

theorem Agree.right (h : Agree k r r') : Agree k r' r' := by
  intro cs lt
  obtain ⟨same, shorter⟩ := h lt
  refine ⟨rfl, fun a rest reads => shorter (a := a) ?_⟩
  unfold Reads at *
  rwa [← same]

theorem Agree.mono (h : Agree k r r') {j : Nat} (le : j ≤ k) : Agree j r r' := fun _ lt => h (Nat.lt_of_lt_of_le lt le)

theorem agree_fail : Agree k (fail : Rule α) fail := fun _ _ => ⟨rfl, fun _ _ reads => nomatch reads⟩

theorem Consumes.agree (h : Consumes r) : Agree k r r := fun _ _ => ⟨rfl, fun _ _ reads => Nat.le_of_lt (h reads)⟩

theorem Consumes.named (h : Consumes r) : Consumes r.named := fun _ _ _ reads => h (reads_named.1 reads)

theorem agree_pure (a : α) : Agree k (pure a) (pure a) := fun _ _ =>
  ⟨rfl, fun _ _ reads => Nat.le_of_eq (congrArg List.length reads.of_pure.2)⟩

theorem Agree.bind (first : Agree k r r') (more : ∀ a, Agree k (f a) (f' a)) : Agree k (r >>= f) (r' >>= f') := by
  intro cs lt
  obtain ⟨same, shorter⟩ := first lt
  constructor
  · rw [result_bind, result_bind, same]
    cases reads : (r cs).result with
    | none => rfl
    | some p => exact (more p.1 (Nat.lt_of_le_of_lt (shorter (a := p.1) reads) lt)).1
  · intro b rest reads
    obtain ⟨a, mid, reads, reads'⟩ := reads_bind.1 reads
    have here := shorter reads
    exact Nat.le_trans ((more a (Nat.lt_of_le_of_lt here lt)).2 reads') here

theorem Consumes.bind (first : Consumes r) (more : ∀ k a, Agree k (f a) (f a)) : Consumes (r >>= f) := by
  intro cs b rest reads
  obtain ⟨a, mid, reads, reads'⟩ := reads_bind.1 reads
  exact Nat.lt_of_le_of_lt ((more _ a (Nat.lt_succ_self _)).2 reads') (first reads)

/-- Behind a character the text is shorter. -/
theorem Agree.step (first : Consumes r) (more : ∀ a, Agree k (f a) (f' a)) : Agree (k + 1) (r >>= f) (r >>= f') := by
  intro cs lt
  have lower : ∀ {a mid}, r.Reads cs a mid → mid.length < k := fun reads => by
    have := first reads
    omega
  constructor
  · rw [result_bind, result_bind]
    cases reads : (r cs).result with
    | none => rfl
    | some p => exact (more p.1 (lower (a := p.1) reads)).1
  · intro b rest reads
    obtain ⟨a, mid, reads, reads'⟩ := reads_bind.1 reads
    exact Nat.le_trans ((more a (lower reads)).2 reads') (Nat.le_of_lt (first reads))

theorem Agree.named (h : Agree k r r') : Agree k r.named r'.named := by
  intro cs lt
  rw [result_named, result_named]
  exact ⟨(h lt).1, fun a rest reads => (h lt).2 (reads_named.1 reads)⟩

theorem Agree.orElse {q q' : Rule α} (h : Agree k r r') (h' : Agree k q q') : Agree k (r.orElse q) (r'.orElse q') := by
  intro cs lt
  rw [result_orElse, result_orElse, (h lt).1, (h' lt).1]
  refine ⟨rfl, fun a rest reads => ?_⟩
  rcases reads.of_orElse with reads | ⟨_, reads⟩
  · exact (h lt).2 reads
  · exact (h' lt).2 reads

theorem Agree.opt (h : Agree k r r') : Agree k (opt r) (opt r') := by
  intro cs lt
  constructor
  · have same := (h lt).1
    unfold Rule.opt
    split
    · rfl
    · simp only [same]
      cases (r cs).result <;> rfl
  · intro o rest reads
    rcases reads.of_opt with ⟨_, rfl⟩ | ⟨a, _, reads⟩
    · exact Nat.le_refl _
    · exact (h lt).2 reads

theorem Agree.many (h : Agree k r r') : Agree k (many r) (many r') := by
  have bounded : ∀ n, Agree k (upTo r n) (upTo r' n) := by
    intro n
    induction n with
    | zero => exact agree_pure []
    | succ n ih =>
      intro cs lt
      have same := (h lt).1
      have stops : ∀ {as as' : List α} {rest rest' : List Char}, some (as, rest') = some (as', rest) →
          rest'.length ≤ cs.length → rest.length ≤ cs.length := fun eq le => by
        obtain ⟨_, rfl⟩ := Prod.mk.inj (Option.some.inj eq)
        exact le
      unfold Reads upTo
      split
      · exact ⟨rfl, fun as rest reads => stops reads (Nat.le_refl _)⟩
      · simp only [same]
        cases reads : (r cs).result with
        | none => exact ⟨rfl, fun as rest reads => stops reads (Nat.le_refl _)⟩
        | some p =>
          have shorter : p.2.length ≤ cs.length := (h lt).2 (show r.Reads cs p.1 p.2 from reads)
          obtain ⟨same, more⟩ := ih (Nat.lt_of_le_of_lt shorter lt)
          by_cases still : p.2.length = cs.length
          · simp only [still, if_true]
            exact ⟨trivial, fun as rest reads => stops reads shorter⟩
          · simp only [still, if_false, same]
            refine ⟨trivial, fun as rest reads => ?_⟩
            obtain ⟨m, reads, eq⟩ := Option.map_eq_some_iff.1 reads
            exact stops (congrArg some eq) (Nat.le_trans (more (show (upTo r n).Reads p.2 m.1 m.2 from reads)) shorter)
  exact fun cs lt => bounded cs.length lt

end Rule

/-! ## Rules without levels -/

variable {k : Nat} {l l' : Level} {cs rest : List Char} {e : Expr} {w : String}

theorem agree_run (p : Char → Bool) : Agree k (run p) (run p) := fun _ _ => by
  refine ⟨rfl, fun a rest reads => ?_⟩
  rw [reads.of_run.2]
  exact (List.dropWhile_suffix _).length_le

theorem consumes_one (p : Char → Bool) : Consumes (one p) := by
  intro cs c rest reads
  rw [reads.of_one.1]
  exact Nat.lt_succ_self _

theorem agree_blanks : Agree k blanks blanks := ((agree_run _).bind fun _ => agree_pure _).named

theorem agree_someBlanks : Agree k someBlanks someBlanks :=
  ((consumes_one _).agree.bind fun _ => (agree_run _).bind fun _ => agree_pure _).named

theorem consumes_spaced (some : w.toList ≠ []) : Consumes (spaced w) := by
  intro cs _ rest reads
  obtain ⟨_, mid, left, reads⟩ := reads_bind.1 reads
  have right : (do let _ ← word w; blanks).Reads mid _ rest := reads
  have shorter := ((consumes_word some).bind fun _ _ => agree_blanks) right
  exact Nat.lt_of_lt_of_le shorter ((agree_blanks (Nat.lt_succ_self _)).2 left)

theorem agree_spaced (some : w.toList ≠ []) : Agree k (spaced w) (spaced w) := (consumes_spaced some).agree

theorem Rule.Agree.separated {α : Type} {r r' : Rule α} (h : Agree k r r') (some : w.toList ≠ []) :
    Agree k (separated r w) (separated r' w) :=
  h.bind fun _ => ((agree_spaced some).bind fun _ => h).many.bind fun _ => agree_pure _

theorem consumes_identifier : Consumes identifier := by
  intro cs seg rest h
  obtain ⟨ident, rfl, _⟩ := Reads.of_identifier h
  obtain ⟨c, more, rfl, _⟩ := exists_of_isIdentifier ident
  rw [List.length_append, List.length_cons]
  omega

theorem consumes_point : Consumes (do word "."; identifier) :=
  (consumes_word (w := ".") (by decide)).bind fun _ _ => consumes_identifier.agree

theorem consumes_path : Consumes path :=
  (consumes_identifier.bind fun _ _ => consumes_point.agree.many.bind fun _ => agree_pure _).named

theorem agree_string : Agree k Grammar.string Grammar.string := by
  have quoted : ∀ {q : Char}, q ≠ '\\' → Consumes (quotedBy q) := by
    intro q slash cs v rest reads
    obtain ⟨used, rfl, _⟩ := exists_of_quotedBy slash reads
    rw [List.length_append, List.length_cons]
    omega
  exact ((quoted (by decide)).agree.orElse (quoted (by decide)).agree).named

theorem agree_digits : Agree k digits digits :=
  (consumes_one _).agree.bind fun _ => (agree_run _).bind fun _ => agree_pure _

theorem consumes_text (some : w.toList ≠ []) : Consumes (text w) := by
  intro cs _ rest h
  have : 0 < w.toList.length := List.length_pos_iff.2 some
  rw [h.of_text, List.length_append]
  omega

theorem agree_number : Agree k number number := by
  have sign : Agree k (text "-") (text "-") := (consumes_text (by decide)).agree
  have fraction : Agree k (do text "."; digits) (do text "."; digits) :=
    (consumes_text (w := ".") (by decide)).agree.bind fun _ => agree_digits
  refine (sign.opt.bind fun sign => agree_digits.bind fun whole => fraction.opt.bind fun found => ?_).named
  cases found with
  | some => exact agree_pure _
  | none =>
    cases Decimal.whole? whole with
    | none => exact agree_pure _
    | some => exact agree_pure _

theorem agree_meanings {α : Type} {words : List (String × α)} (some : ∀ w ∈ words, w.1.toList ≠ []) :
    Agree k (choice (words.map fun w => meaning w.1 w.2)) (choice (words.map fun w => meaning w.1 w.2)) := by
  induction words with
  | nil => exact agree_fail
  | cons w words ih =>
    have first : Agree k (meaning w.1 w.2) (meaning w.1 w.2) :=
      (consumes_word (some w List.mem_cons_self)).agree.bind fun _ => agree_pure _
    exact first.orElse (ih fun w' mem => some w' (List.mem_cons_of_mem w mem))

theorem agree_keyword : Agree k keyword keyword := by
  have words : ∀ w ∈ meanings, w.1.toList ≠ [] := by decide
  have stop : Agree k (absent (one isIdentifierChar).named) (absent (one isIdentifierChar).named) := fun _ _ =>
    ⟨rfl, fun _ _ reads => Nat.le_of_eq (congrArg List.length reads.of_absent.1)⟩
  exact ((agree_meanings words).bind fun _ => stop.bind fun _ => agree_pure _).named

theorem agree_query : Agree k query query :=
  ((consumes_word (w := "typeof") (by decide)).agree.bind fun _ => agree_someBlanks.bind fun _ =>
    consumes_path.agree.bind fun _ => agree_pure _).named

theorem agree_suffix : Agree k suffix suffix :=
  ((agree_spaced (w := "[") (by decide)).bind fun _ => (consumes_word (w := "]") (by decide)).agree).named

/-! ## Rules of a level -/

/-- The rules of both levels read the same of texts with less than `k` characters. -/
structure Grammar.Level.Agree (k : Nat) (l l' : Level) : Prop where
  union : Rule.Agree k l.union l'.union
  operand : Rule.Agree k l.operand l'.operand

section

variable (h : l.Agree k l')

include h

theorem agree_member : Agree k (member l) (member l') := by
  have mark : Agree k mark mark := (consumes_word (w := "?") (by decide)).agree.named
  exact (consumes_identifier.agree.bind fun _ => mark.opt.bind fun _ => (agree_spaced (w := ":") (by decide)).bind
    fun _ => h.union.bind fun _ => agree_pure _).named

theorem agree_members : Agree k (members l) (members l') := by
  have separator : Agree k separator separator :=
    ((consumes_word (w := ";") (by decide)).agree.orElse (consumes_word (w := ",") (by decide)).agree).named
  have item := agree_blanks.bind fun _ => separator.bind fun _ => agree_blanks.bind fun _ => agree_member h
  exact ((agree_member h).bind fun _ => item.many.bind fun _ =>
    (agree_blanks.bind fun _ => separator).opt.bind fun _ => agree_pure _).named

theorem agree_object : Agree (k + 1) (object l) (object l') :=
  (Agree.step (consumes_word (w := "\x7b") (by decide)) fun _ => agree_blanks.bind fun _ =>
    (agree_members h).opt.bind fun _ => agree_blanks.bind fun _ =>
    (consumes_word (w := "\x7d") (by decide)).agree.bind fun _ => agree_pure _).named

theorem agree_parameter : Agree k (parameter l) (parameter l') := by
  have dots : Agree k rest rest := (consumes_word (w := "...") (by decide)).agree.named
  have mark : Agree k mark mark := (consumes_word (w := "?") (by decide)).agree.named
  exact (dots.opt.bind fun _ => consumes_identifier.agree.bind fun _ => mark.opt.bind fun _ =>
    (agree_spaced (w := ":") (by decide)).bind fun _ => h.union.bind fun _ => agree_pure _).named

theorem agree_parameters : Agree k (parameters l) (parameters l') :=
  ((agree_parameter h).separated (w := ",") (by decide)).named

theorem agree_function : Agree (k + 1) (function l) (function l') :=
  (Agree.step (consumes_word (w := "(") (by decide)) fun _ => agree_blanks.bind fun _ =>
    (agree_parameters h).opt.bind fun _ => agree_blanks.bind fun _ =>
    (consumes_word (w := ")") (by decide)).agree.bind fun _ => (agree_spaced (w := "=>") (by decide)).bind fun _ =>
    h.union.bind fun _ => agree_pure _).named

theorem agree_parenthesized : Agree (k + 1) (parenthesized l) (parenthesized l') :=
  (Agree.step (consumes_word (w := "(") (by decide)) fun _ => agree_blanks.bind fun _ => h.union.bind fun _ =>
    agree_blanks.bind fun _ => (consumes_word (w := ")") (by decide)).agree.bind fun _ => agree_pure _).named

theorem agree_tuple : Agree (k + 1) (tuple l) (tuple l') := by
  have elements : Agree k (elements l) (elements l') := (h.union.separated (w := ",") (by decide)).named
  exact (Agree.step (consumes_word (w := "[") (by decide)) fun _ => agree_blanks.bind fun _ =>
    elements.opt.bind fun _ => agree_blanks.bind fun _ =>
    (consumes_word (w := "]") (by decide)).agree.bind fun _ => agree_pure _).named

theorem agree_operator : Agree (k + 1) (operator l) (operator l') := by
  have word : Consumes operatorWord := by
    intro cs w rest reads
    obtain ⟨mem, rfl⟩ := Reads.of_operatorWord reads
    have some : ∀ w ∈ operators, 0 < w.toList.length := by decide
    have := some w mem
    rw [List.length_append]
    omega
  exact (Agree.step word fun _ => agree_someBlanks.bind fun _ => h.operand.bind fun _ => agree_pure _).named

theorem agree_reference : Agree (k + 1) (reference l) (reference l') := by
  have args : Agree k (arguments l) (arguments l') :=
    ((agree_spaced (w := "<") (by decide)).bind fun _ => (h.union.separated (w := ",") (by decide)).bind fun _ =>
      agree_blanks.bind fun _ => (consumes_word (w := ">") (by decide)).agree.bind fun _ => agree_pure _).named
  exact (Agree.step consumes_path fun _ => args.opt.bind fun _ => agree_pure _).named

theorem agree_primary : Agree (k + 1) (primary l) (primary l') := by
  have value : ∀ {r : Rule Value}, Agree (k + 1) r r → Agree (k + 1) (literal r) (literal r) := fun r =>
    r.bind fun _ => agree_pure _
  exact ((agree_function h).orElse ((agree_parenthesized h).orElse ((agree_tuple h).orElse ((agree_object h).orElse
    ((agree_operator h).orElse (agree_query.orElse ((value agree_string).orElse (agree_number.orElse
    ((value agree_keyword).orElse ((agree_reference h).orElse agree_fail)))))))))).named

theorem agree_suffixed : Agree (k + 1) (suffixed l) (suffixed l') :=
  ((agree_primary h).bind fun _ => agree_suffix.many.bind fun _ => agree_pure _).named

theorem agree_intersection : Agree (k + 1) (intersection l) (intersection l') :=
  (((agree_suffixed h).separated (w := "&") (by decide)).bind fun _ => agree_pure _).named

theorem agree_union : Agree (k + 1) (union l) (union l') :=
  (((agree_intersection h).separated (w := "|") (by decide)).bind fun _ => agree_pure _).named

end

/-! ## As many levels as needed -/

/-- Levels above the length of a text read the same of it. -/
theorem agree_level {n m : Nat} (le : k ≤ n) (le' : k ≤ m) : (level n).Agree k (level m) := by
  induction k generalizing n m with
  | zero => exact ⟨fun _ lt => absurd lt (Nat.not_lt_zero _), fun _ lt => absurd lt (Nat.not_lt_zero _)⟩
  | succ k ih =>
    obtain ⟨n, rfl⟩ := Nat.exists_eq_add_of_le' le
    obtain ⟨m, rfl⟩ := Nat.exists_eq_add_of_le' le'
    have below : (level (n + k)).Agree k (level (m + k)) := ih (Nat.le_add_left ..) (Nat.le_add_left ..)
    exact ⟨agree_union below, agree_suffixed below⟩

/-- The rules with as many levels as the text needs. -/
def deep : Level where
  union cs := (level (cs.length + 1)).union cs
  operand cs := (level (cs.length + 1)).operand cs

theorem deep_union (cs : List Char) : deep.union cs = (level (cs.length + 1)).union cs := by rw [deep]

theorem deep_operand (cs : List Char) : deep.operand cs = (level (cs.length + 1)).operand cs := by rw [deep]

theorem agree_deep {n : Nat} (le : k ≤ n) : (level n).Agree k deep := by
  refine ⟨fun cs lt => ?_, fun cs lt => ?_⟩
  · rw [deep_union]
    exact (agree_level (Nat.le_trans (Nat.succ_le_of_lt lt) le) (Nat.le_refl _)).union (Nat.lt_succ_self _)
  · rw [deep_operand]
    exact (agree_level (Nat.le_trans (Nat.succ_le_of_lt lt) le) (Nat.le_refl _)).operand (Nat.lt_succ_self _)

theorem deep_agrees (k : Nat) : deep.Agree k deep where
  union := (agree_deep (Nat.le_refl k)).union.right
  operand := (agree_deep (Nat.le_refl k)).operand.right

/-- With as many levels as needed, unions are read by the rule for unions. -/
theorem reads_deep_union : deep.union.Reads cs e rest ↔ (union deep).Reads cs e rest := by
  have same := (agree_union (agree_deep (Nat.le_refl cs.length)) (Nat.lt_succ_self _)).1
  unfold Reads
  rw [same, deep_union, level]

theorem reads_deep_operand : deep.operand.Reads cs e rest ↔ (suffixed deep).Reads cs e rest := by
  have same := (agree_suffixed (agree_deep (Nat.le_refl cs.length)) (Nat.lt_succ_self _)).1
  unfold Reads
  rw [same, deep_operand, level]

end DocTree.TypeExpr
