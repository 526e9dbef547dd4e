import DocTree.Proofs.TypeExpr.Inversion
import DocTree.Proofs.TypeExpr.Refusals
import Mathlib.Data.List.TakeWhile

/-!
# What tokens are read from

The rules that go no deeper, taken apart: how a text begins that they read, and what they leave of it.

* `Reads.of_blanks`, `Reads.of_spaced`, `Reads.of_identifier` : blanks, words between blanks, identifiers;
* `reads_operatorWord`, `Reads.of_operatorWord`, `reads_keyword_stop`, `Reads.of_keyword` : words that are no names;
* `exists_of_quotedBy`, `exists_of_string`, `exists_of_number` : literals with a beginning of their own.
-/

namespace DocTree.TypeExpr

open Rule Grammar Text

variable {l : Level} {cs rest : List Char} {e : Expr} {w : String}

/-! ## Blanks and identifiers -/

theorem Reads.of_blanks {u : Unit} (h : blanks.Reads cs u rest) : rest = cs.dropWhile isBlank := by
  obtain ⟨a, mid, first, second⟩ := reads_bind.1 (reads_named.1 h)
  rw [second.of_pure.2, first.of_run.2]

theorem Reads.of_spaced {u : Unit} (h : (spaced w).Reads cs u rest) : ∃ before after,
    cs = before ++ (w.toList ++ after) ∧ (∀ c ∈ before, isBlank c = true) ∧ rest = after.dropWhile isBlank := by
  obtain ⟨_, mid, left, h⟩ := reads_bind.1 h
  obtain ⟨_, mid', here, right⟩ := reads_bind.1 h
  refine ⟨cs.takeWhile isBlank, mid', ?_, fun c mem => List.mem_takeWhile_imp mem, Reads.of_blanks right⟩
  rw [← here.of_word, Reads.of_blanks left, List.takeWhile_append_dropWhile]

theorem Reads.of_someBlanks {u : Unit} (h : someBlanks.Reads cs u rest) :
    ∃ b more, cs = b :: more ∧ isBlank b = true ∧ rest = cs.dropWhile isBlank := by
  obtain ⟨b, more, one, tail⟩ := reads_bind.1 (reads_named.1 h)
  obtain ⟨_, _, run, last⟩ := reads_bind.1 tail
  obtain ⟨rfl, blank⟩ := one.of_one
  refine ⟨b, more, rfl, blank, ?_⟩
  rw [List.dropWhile_cons_of_pos blank, last.of_pure.2, run.of_run.2]

theorem exists_of_word {α : Type} {f : Unit → Rule α} {a : α} (h : (word w >>= f).Reads cs a rest) :
    ∃ more, cs = w.toList ++ more ∧ (f ()).Reads more a rest := by
  obtain ⟨_, more, here, reads⟩ := reads_bind.1 h
  exact ⟨more, here.of_word, reads⟩

theorem Reads.of_identifier {seg : List Char} (h : identifier.Reads cs seg rest) : isIdentifier seg = true ∧
    cs = seg ++ rest ∧ ∀ c ∈ rest.head?, isIdentifierChar c = false := by
  obtain ⟨c, mid, first, second⟩ := reads_bind.1 (reads_named.1 h)
  obtain ⟨more, mid', run, last⟩ := reads_bind.1 second
  obtain ⟨rfl, start⟩ := first.of_one
  obtain ⟨rfl, rfl⟩ := run.of_run
  obtain ⟨rfl, rfl⟩ := last.of_pure
  refine ⟨?_, ?_, fun d head => ?_⟩
  · exact Bool.and_eq_true_iff.2 ⟨start, List.all_takeWhile⟩
  · rw [List.cons_append, List.takeWhile_append_dropWhile]
  · exact Bool.eq_false_iff.2 fun here => by
      have := List.head?_dropWhile_not isIdentifierChar mid
      rw [Option.mem_def.1 head] at this
      simp [here] at this

/-! ## Words -/

theorem reads_operatorWord (h : w ∈ operators) (rest : List Char) : operatorWord.Reads (w.toList ++ rest) w rest := by
  have here : (meaning w w).Reads (w.toList ++ rest) w rest := (reads_word w rest).bind (reads_pure ..)
  simp only [operators, List.mem_cons, List.not_mem_nil, or_false] at h
  refine reads_named.2 ?_
  rcases h with rfl | rfl | rfl
  · exact here.first
  · exact Refuses.next (refuses_word_head (w := "keyof") rfl (not_mem_head (by decide))).bind here.first
  · exact Refuses.next (refuses_word_head (w := "keyof") rfl (not_mem_head (by decide))).bind
      (Refuses.next (refuses_word_head (w := "readonly") rfl (not_mem_head (by decide))).bind here.first)

theorem Reads.of_operatorWord (h : operatorWord.Reads cs w rest) : w ∈ operators ∧ cs = w.toList ++ rest := by
  obtain ⟨r, mem, reads⟩ := Reads.of_choice (reads_named.1 h)
  have each : ∀ {v : String}, v ∈ operators → (meaning v v).Reads cs w rest →
      w ∈ operators ∧ cs = w.toList ++ rest := by
    intro v mem reads
    obtain ⟨_, mid, here, last⟩ := reads_bind.1 reads
    obtain ⟨rfl, rfl⟩ := last.of_pure
    exact ⟨mem, here.of_word⟩
  simp only [List.mem_cons, List.not_mem_nil, or_false] at mem
  rcases mem with rfl | rfl | rfl
  · exact each (v := "keyof") (by decide) reads
  · exact each (v := "readonly") (by decide) reads
  · exact each (v := "unique") (by decide) reads

theorem reads_meaning {v : Value} (h : (w, v) ∈ meanings) (rest : List Char) :
    (choice (meanings.map fun w => meaning w.1 w.2)).Reads (w.toList ++ rest) v rest := by
  have here : (meaning w v).Reads (w.toList ++ rest) v rest := (reads_word w rest).bind (reads_pure ..)
  simp only [meanings, List.mem_cons, Prod.mk.injEq, List.not_mem_nil, or_false] at h
  rcases h with ⟨rfl, rfl⟩ | ⟨rfl, rfl⟩ | ⟨rfl, rfl⟩
  · exact here.first
  · exact Refuses.next (refuses_word_head (w := "true") rfl (not_mem_head (by decide))).bind here.first
  · exact Refuses.next (refuses_word_head (w := "true") rfl (not_mem_head (by decide))).bind
      (Refuses.next (refuses_word_head (w := "false") rfl (not_mem_head (by decide))).bind here.first)

theorem reads_keyword_stop {v : Value} (h : (w, v) ∈ meanings) (stop : ∀ c ∈ rest.head?, isIdentifierChar c = false) :
    keyword.Reads (w.toList ++ rest) v rest :=
  reads_named.2 (Reads.bind (reads_meaning h rest)
    ((refuses_named.2 (refuses_one stop)).absent.bind (reads_pure ..)))

theorem Reads.of_keyword {v : Value} (h : keyword.Reads cs v rest) : ∃ w, (w, v) ∈ meanings ∧ cs = w.toList ++ rest ∧
    ∀ c ∈ rest.head?, isIdentifierChar c = false := by
  obtain ⟨v', mid, first, second⟩ := reads_bind.1 (reads_named.1 h)
  obtain ⟨_, mid', stop, last⟩ := reads_bind.1 second
  obtain ⟨rfl, rfl⟩ := last.of_pure
  obtain ⟨rfl, none⟩ := stop.of_absent
  have solid : ∀ c ∈ rest.head?, isIdentifierChar c = false := by
    intro c head
    by_contra here
    cases rest with
    | nil => cases head
    | cons d more =>
      obtain rfl : d = c := Option.some.inj head
      exact (reads_named.2 (reads_one (by simpa using here))).not_refuses none
  rcases meanings_cases meanings cs with none | ⟨w, mem, more, eq, reads⟩
  · exact absurd none first.not_refuses
  · obtain ⟨rfl, rfl⟩ := Prod.mk.inj (Option.some.inj (reads.symm.trans first))
    exact ⟨w.1, mem, eq.symm, solid⟩

/-! ## Strings and numbers -/

/-- A string literal ends with its closing quote, whatever follows. -/
theorem exists_of_literalTail {quote : Char} (slash : quote ≠ '\\') {found : List Char}
    (h : literalTail quote cs = some (found, rest)) :
    ∃ used, cs = used ++ rest ∧ ∀ rest', literalTail quote (used ++ rest') = some (found, rest') := by
  fun_induction literalTail quote cs generalizing found with
  | case1 => cases h
  | case2 => cases h
  | case3 c cs other ih =>
    obtain ⟨⟨found, rest⟩, tail, eq⟩ := Option.map_eq_some_iff.1 h
    obtain ⟨rfl, rfl⟩ := Prod.mk.inj eq
    obtain ⟨used, rfl, reads⟩ := ih tail
    refine ⟨'\\' :: c :: used, rfl, fun rest' => ?_⟩
    simp [literalTail, other, reads]
  | case4 cs _ =>
    obtain ⟨rfl, rfl⟩ := Prod.mk.inj (Option.some.inj h)
    refine ⟨[quote], rfl, fun rest' => ?_⟩
    simp [literalTail, slash]
  | case5 => cases h
  | case6 c cs _ other solid ih =>
    obtain ⟨⟨found, rest⟩, tail, eq⟩ := Option.map_eq_some_iff.1 h
    obtain ⟨rfl, rfl⟩ := Prod.mk.inj eq
    obtain ⟨used, rfl, reads⟩ := ih tail
    refine ⟨c :: used, rfl, fun rest' => ?_⟩
    simp [literalTail, other, solid, reads]

/-- A string between quotes is read, whatever follows. -/
theorem exists_of_quotedBy {quote : Char} (slash : quote ≠ '\\') {v : Value} (h : (quotedBy quote).Reads cs v rest) :
    ∃ used, cs = quote :: used ++ rest ∧ ∀ rest', (quotedBy quote).Reads (quote :: used ++ rest') v rest' := by
  unfold Reads quotedBy at *
  cases cs with
  | nil => cases h
  | cons c cs =>
    by_cases here : c = quote
    · simp only [here, if_true] at h
      obtain ⟨⟨found, rest⟩, tail, eq⟩ := Option.map_eq_some_iff.1 h
      obtain ⟨rfl, rfl⟩ := Prod.mk.inj eq
      obtain ⟨used, rfl, reads⟩ := exists_of_literalTail slash tail
      exact ⟨used, here ▸ rfl, fun rest' => by simp [reads]⟩
    · simp only [here, if_false] at h
      cases h

theorem exists_of_string {v : Value} (h : Grammar.string.Reads cs v rest) :
    ∃ c more, cs = c :: more ∧ (c = '"' ∨ c = '\'') := by
  rcases (reads_named.1 h).of_orElse with reads | ⟨_, reads⟩
  · obtain ⟨used, eq, _⟩ := exists_of_quotedBy (by decide) reads
    exact ⟨_, _, eq, Or.inl rfl⟩
  · obtain ⟨used, eq, _⟩ := exists_of_quotedBy (by decide) reads
    exact ⟨_, _, eq, Or.inr rfl⟩

theorem exists_of_number (h : number.Reads cs e rest) : ∃ c more, cs = c :: more ∧ (c = '-' ∨ c.isDigit = true) := by
  obtain ⟨sign, mid, first, second⟩ := reads_bind.1 (reads_named.1 h)
  rcases first.of_opt with ⟨_, rfl⟩ | ⟨_, _, here⟩
  · obtain ⟨_, _, digits, _⟩ := reads_bind.1 second
    obtain ⟨d, more, one, _⟩ := reads_bind.1 digits
    exact ⟨d, more, one.of_one.1, Or.inr one.of_one.2⟩
  · exact ⟨'-', mid, here.of_text, Or.inl rfl⟩

end DocTree.TypeExpr
