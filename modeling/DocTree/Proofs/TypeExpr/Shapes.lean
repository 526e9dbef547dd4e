import DocTree.Proofs.TypeExpr.Assembled
import DocTree.Proofs.TypeExpr.Names
import DocTree.Proofs.TypeExpr.Pairing

/-!
# The trees of names and literals

The rules that use no others in circles read trees from which, by position, the same is made as they read.

* `pairs_identifier`, `pairs_path`, `pairs_operatorWord`, … : words and names;
* `literalTail_eq`, `numberValue_numeralText` : what is made from the characters of a literal;
  `pairs_string`, `pairs_number`, `pairs_keyword`, `pairs_query`.
-/

namespace DocTree.TypeExpr

open Rule (Pairs pairs_pure pairs_refl)
open DocTree.TypeExpr.Tree (word gap)
open Concrete (series)

variable {m : Type → Type} [Monad m] [LawfulMonad m] {α β : Type} {b : Builder m} {pick : Visited → Option α}
  {t : Tree} {ts : List Tree} {e : Expr} {es : List Expr}

/-! ## Words and names -/

theorem pairs_someBlanks :
    Pairs (fun t _ => ∃ cs, t = .leaf (some .someBlanks) cs) Concrete.someBlanks Grammar.someBlanks := by
  unfold Concrete.someBlanks Grammar.someBlanks Concrete.leaf
  rw [Rule.bind_bind]
  refine ((pairs_refl _).bind ?_).named
  rintro c _ rfl
  rw [Rule.bind_bind]
  exact (pairs_refl _).bind fun _ => pairs_pure ⟨_, rfl⟩

theorem pairs_identifier :
    Pairs (fun t cs => t = .leaf (some .identifier) cs) Concrete.identifier Grammar.identifier :=
  ((pairs_refl _).into fun same => congrArg _ same).named

theorem pairs_marked (label : Option Label) (w : String) :
    Pairs (fun t o => t = marked label w o.isSome) (Concrete.perhaps (Concrete.literal label w).named)
      (Rule.opt (Rule.word w).named) := by
  refine (pairs_literal label w).named.perhaps.mono ?_
  rintro t o ⟨o', rfl, related⟩
  cases related with
  | none => rfl
  | some here => rw [here]; rfl

/-- A point and an identifier. -/
def segment (cs : List Char) : Tree := .node none [word ".".toList, .leaf (some .identifier) cs]

theorem pairs_segment :
    Pairs (fun t cs => t = segment cs) (Concrete.parts none [Concrete.literal none ".", Concrete.identifier]) (do
      Rule.word "."
      Grammar.identifier) := by
  refine .parts ((pairs_literal none ".").first ?_)
  rintro _ _ rfl
  rw [← Rule.bind_return Grammar.identifier]
  refine pairs_identifier.first ?_
  rintro _ _ rfl
  exact pairs_done rfl

theorem idle_segments (css : List (List Char)) : Idle b (css.map segment) := by
  induction css with
  | nil => exact idle_nil
  | cons cs css ih => exact .cons (Idle.node rfl (.cons ⟨_, rfl⟩ (.cons ⟨_, rfl⟩ idle_nil))) ih

theorem text_path (first : List Char) (others : List (List Char)) :
    String.ofList (Tree.textAll [.leaf (some .identifier) first, .node none (others.map segment)]) =
      ".".intercalate ((first :: others).map String.ofList) := by
  have rest : Tree.textAll (others.map segment) = others.flatMap ('.' :: ·) := by
    induction others with
    | nil => rfl
    | cons cs others ih => simp [segment, Tree.textAll, Tree.text, ih]
  have own : (String.toList ∘ String.ofList) = id := funext fun _ => String.toList_ofList
  rw [← String.toList_inj, String.toList_intercalate, String.toList_ofList, List.map_map, own, List.map_id]
  show _ = ['.'].intercalate (first :: others)
  rw [Text.intercalate_cons]
  simp [Tree.textAll, Tree.text, rest]

theorem pairs_path : Pairs (fun t s => visit b t = pure (.text s)) Concrete.path Grammar.path := by
  refine (Pairs.parts ?_).named
  refine pairs_identifier.first ?_
  rintro _ first rfl
  refine pairs_segment.repeated.first ?_
  rintro _ others ⟨ts, rfl, related⟩
  obtain rfl : ts = others.map segment := by
    clear * - related
    induction related with
    | nil => rfl
    | cons here _ ih => rw [here, ih, List.map_cons]
  refine pairs_done ?_
  rw [visit_path (.cons ⟨_, rfl⟩ (.cons (Idle.node rfl (idle_segments others)) idle_nil)), text_path]

/-! ## Literals -/

theorem unescape_cons {c : Char} (other : c ≠ '\\') (cs : List Char) : unescape (c :: cs) = c :: unescape cs := by
  rw [unescape]
  rintro _ _ rfl
  exact absurd rfl other

theorem quotedTail_ne_nil {quote : Char} {cs : List Char} {p : List Char × List Char}
    (h : Concrete.quotedTail quote cs = some p) : p.1 ≠ [] := by
  unfold Concrete.quotedTail at h
  split at h
  · cases h
  · split at h
    · cases h
    · obtain ⟨q, -, rfl⟩ := Option.map_eq_some_iff.1 h
      exact List.cons_ne_nil _ _
  · split at h
    · cases h
      exact List.cons_ne_nil _ _
    · split at h
      · cases h
      · obtain ⟨q, -, rfl⟩ := Option.map_eq_some_iff.1 h
        exact List.cons_ne_nil _ _

/-- A string literal as it is written, and the text that it denotes. -/
theorem literalTail_eq (quote : Char) (cs : List Char) :
    Grammar.literalTail quote cs = (Concrete.quotedTail quote cs).map fun p => (unescape p.1.dropLast, p.2) := by
  fun_induction Concrete.quotedTail quote cs with
  | case1 => rfl
  | case2 cs => simp [Grammar.literalTail]
  | case3 c cs other ih =>
    rw [Grammar.literalTail, if_neg other, ih, Option.map_map, Option.map_map]
    refine Option.map_congr fun p found => ?_
    simp [List.dropLast_cons_of_ne_nil, quotedTail_ne_nil found, unescape, other]
  | case4 cs alone =>
    rw [Grammar.literalTail, if_pos rfl]
    · rfl
    · exact alone
  | case5 cs alone other =>
    rw [Grammar.literalTail, if_neg other, if_pos rfl]
    · rfl
    · exact alone
  | case6 c cs alone other solid ih =>
    rw [Grammar.literalTail, if_neg other, if_neg solid, ih, Option.map_map, Option.map_map]
    · refine Option.map_congr fun p found => ?_
      simp [List.dropLast_cons_of_ne_nil, quotedTail_ne_nil found, unescape_cons solid]
    · exact alone

theorem pairs_quoted (quote : Char) :
    Pairs (fun cs v => v = .str (String.ofList (unescape cs.tail.dropLast))) (Concrete.quoted quote)
      (Grammar.quotedBy quote) := by
  intro cs
  unfold Concrete.quoted Grammar.quotedBy
  cases cs with
  | nil => exact .stuck
  | cons c rest =>
    dsimp only
    split
    · rw [literalTail_eq]
      cases Concrete.quotedTail quote rest with
      | none => exact .stuck
      | some p => exact .read rfl
    · exact .stuck

theorem pairs_string : Pairs (fun t v => Means b t (.literal v)) Concrete.string Grammar.string := by
  have quoted : ∀ quote, Pairs (fun t v => Means b (.node (some .string) [t]) (.literal v))
      (Concrete.leaf none (Concrete.quoted quote)) (Grammar.quotedBy quote) := by
    intro quote
    refine (pairs_quoted quote).into fun {cs v} here => ?_
    rw [here]
    exact means_string cs
  unfold Concrete.string Grammar.string
  rw [← Rule.orElse_fail (Grammar.quotedBy '\'')]
  exact (Pairs.oneOf (.cons (quoted '"') (.cons (quoted '\'') .nil))).named

theorem pairs_digits :
    Pairs (fun ds ds' => ds = ds' ∧ ds ≠ [] ∧ ∀ d ∈ ds, d.isDigit = true) Grammar.digits Grammar.digits := by
  refine (Rule.pairs_one _).bind ?_
  rintro d _ ⟨rfl, digit⟩
  refine (Rule.pairs_run _).bind ?_
  rintro ds _ ⟨rfl, digits⟩
  exact pairs_pure ⟨rfl, List.cons_ne_nil _ _, List.forall_mem_cons.2 ⟨digit, digits⟩⟩

/-- The characters of a number literal. -/
def numeralText (isNegative : Bool) (whole : List Char) (fraction : Option (List Char)) : List Char :=
  (if isNegative then ['-'] else []) ++ whole ++ (match fraction with | some fraction => '.' :: fraction | none => [])

theorem numberValue_numeralText (isNegative : Bool) {whole : List Char} (fraction : Option (List Char))
    (solid : whole ≠ []) (digits : ∀ d ∈ whole, d.isDigit = true) :
    numberValue (numeralText isNegative whole fraction) =
      match fraction with
      | some fraction => some (.float (Decimal.toFloat isNegative (Decimal.natOf (whole ++ fraction))
          (-(fraction.length : Int))))
      | none => (Decimal.whole? whole).map fun n : Nat => .int (if isNegative then -n else n) := by
  have points : ∀ d ∈ whole, decide (d ≠ '.') = true := by
    intro d mem
    have code := code_of_isDigit (digits d mem)
    refine decide_eq_true ?_
    rintro rfl
    exact absurd code (by decide)
  have first : ∀ rest, (whole ++ rest).head? ≠ some '-' := by
    intro rest
    obtain ⟨d, ds, rfl⟩ := List.exists_cons_of_ne_nil solid
    rintro head
    have code := code_of_isDigit (digits d List.mem_cons_self)
    obtain rfl : d = '-' := Option.some.inj head
    exact absurd code (by decide)
  have sign : ∀ rest, ((if isNegative then ['-'] else []) ++ whole ++ rest).head? = some '-' ↔ isNegative = true := by
    intro rest
    cases isNegative with
    | false => simpa using first rest
    | true => simp
  have bare : ∀ rest, unsigned ((if isNegative then ['-'] else []) ++ whole ++ rest) = whole ++ rest := by
    intro rest
    unfold unsigned
    rw [if_congr (sign rest) rfl rfl]
    cases isNegative <;> simp
  have taken : ∀ rest : List Char, (whole ++ rest).takeWhile (· ≠ '.') = whole ++ rest.takeWhile (· ≠ '.') :=
    fun _ => List.takeWhile_append_of_pos points
  have left : ∀ rest : List Char, (whole ++ rest).dropWhile (· ≠ '.') = rest.dropWhile (· ≠ '.') :=
    fun _ => List.dropWhile_append_of_pos points
  unfold numberValue numeralText
  simp only [sign, bare, Bool.decide_eq_true, taken, left]
  cases fraction with
  | none =>
    rw [List.takeWhile_nil, List.dropWhile_nil, List.append_nil]
  | some fraction =>
    rw [List.takeWhile_cons_of_neg (by decide), List.dropWhile_cons_of_neg (by decide), List.append_nil]

theorem pairs_number : Pairs (Means b) Concrete.number Grammar.number := by
  unfold Concrete.number Concrete.leaf Concrete.numeral Grammar.number
  refine Pairs.named ?_
  rw [Rule.bind_bind]
  refine (pairs_refl _).bind ?_
  rintro sign _ rfl
  rw [Rule.bind_bind]
  refine pairs_digits.bind ?_
  rintro whole _ ⟨rfl, solid, digits⟩
  rw [Rule.bind_bind]
  refine (pairs_refl _).bind ?_
  rintro fraction _ rfl
  have value := numberValue_numeralText sign.isSome fraction solid digits
  rw [Rule.return_bind]
  have denoted : Means b (.leaf (some .number) (numeralText sign.isSome whole fraction)) _ := means_number _
  rw [value] at denoted
  cases fraction with
  | some fraction => exact pairs_pure denoted
  | none =>
    dsimp only at denoted ⊢
    cases found : Decimal.whole? whole with
    | none =>
      rw [found] at denoted
      exact pairs_pure denoted
    | some n =>
      rw [found] at denoted
      exact pairs_pure denoted

theorem pairs_meaning (w : String) (a : α) :
    Pairs (fun t a' => t = word w.toList ∧ a' = a) (Concrete.literal none w) (Grammar.meaning w a) := by
  unfold Concrete.literal Concrete.leaf Grammar.meaning
  rw [Rule.bind_bind]
  exact (pairs_refl _).bind fun _ => pairs_pure ⟨rfl, rfl⟩

theorem pairs_keyword : Pairs (fun t v => Means b t (.literal v)) Concrete.keyword Grammar.keyword := by
  refine (Pairs.parts ?_).named
  have known : ∀ {w : String} {v : Value}, keywordValues.lookup w = some v →
      Pairs (fun t v => ∃ w, t = word w ∧ keywordValues.lookup (String.ofList w) = some v) (Concrete.literal none w)
        (Grammar.meaning w v) := by
    intro w v found
    refine (pairs_meaning w v).mono ?_
    rintro _ _ ⟨rfl, rfl⟩
    exact ⟨w.toList, rfl, by rw [String.ofList_toList, found]⟩
  have words : Pairs (fun t v => ∃ w, t = .node none [word w] ∧ keywordValues.lookup (String.ofList w) = some v)
      (Concrete.oneOf none [Concrete.literal none "true", Concrete.literal none "false", Concrete.literal none "null"])
      (Rule.choice [Grammar.meaning "true" (.bool true), Grammar.meaning "false" (.bool false),
        Grammar.meaning "null" .null]) := by
    refine (Pairs.choice (.cons (known rfl) (.cons (known rfl) (.cons (known rfl) .nil)))).into ?_
    rintro _ v ⟨w, rfl, found⟩
    exact ⟨w, rfl, found⟩
  refine words.first ?_
  rintro _ v ⟨w, rfl, found⟩
  have lacking : Pairs (fun t _ => t = word []) (Concrete.lacking (Rule.one Grammar.isIdentifierChar).named)
      (Rule.absent (Rule.one Grammar.isIdentifierChar).named) := (pairs_refl _).into fun _ => rfl
  refine lacking.first ?_
  rintro _ _ rfl
  exact pairs_done (means_keyword found)

theorem pairs_query : Pairs (Means b) Concrete.query Grammar.query := by
  refine (Pairs.parts ?_).named
  refine (pairs_literal none "typeof").first ?_
  rintro _ _ rfl
  refine pairs_someBlanks.first ?_
  rintro _ _ ⟨cs, rfl⟩
  refine (pairs_path (b := b)).first ?_
  intro t path name
  exact pairs_done (means_query name)

theorem pairs_operatorWord :
    Pairs (fun t w => t = .node (some .operatorWord) [word w.toList]) Concrete.operatorWord Grammar.operatorWord := by
  have known : ∀ w, Pairs (fun t w => .node (some .operatorWord) [t] = Tree.node (some .operatorWord) [word w.toList])
      (Concrete.literal none w) (Grammar.meaning w w) := by
    intro w
    refine (pairs_meaning w w).mono ?_
    rintro _ _ ⟨rfl, rfl⟩
    rfl
  exact (Pairs.oneOf (.cons (known _) (.cons (known _) (.cons (known _) .nil)))).named

theorem pairs_separator :
    Pairs (fun t _ => ∃ w, t = .node (some .separator) [word w]) Concrete.separator Grammar.separator := by
  have known : ∀ w, Pairs (fun t _ => ∃ w, .node (some .separator) [t] = Tree.node (some .separator) [word w])
      (Concrete.literal none w) (Rule.word w) := by
    intro w
    refine (pairs_literal none w).mono ?_
    rintro _ _ rfl
    exact ⟨_, rfl⟩
  unfold Concrete.separator Grammar.separator
  rw [← Rule.orElse_fail (Rule.word ",")]
  exact (Pairs.oneOf (.cons (known _) (.cons (known _) .nil))).named

end DocTree.TypeExpr
