import DocTree.Proofs.TypeExpr.Reads

/-!
# What a rule did that reads

Where a rule is put together from others, what it reads was read by these.

* `reads_bind`, `Reads.of_orElse`, `Reads.of_opt`, `Reads.of_absent`, … : one lemma for each way to put rules together;
* `Repeats.of_many` : a repetition reads one by one; `Repeats.refuses` : it ends where nothing more is read;
* `Goes r cs` : the rule reads something; `Consumes r` : what it reads has a character at least.
-/

namespace DocTree.TypeExpr.Rule

variable {α β : Type} {r r' : Rule α} {cs mid rest rest' : List Char} {a a' : α} {b : β} {f : α → Rule β}

def Goes (r : Rule α) (cs : List Char) : Prop := ∃ a rest, r.Reads cs a rest

def Consumes (r : Rule α) : Prop := ∀ ⦃cs a rest⦄, r.Reads cs a rest → rest.length < cs.length

theorem Reads.not_refuses (h : r.Reads cs a rest) : ¬r.Refuses cs := by
  intro none
  unfold Reads Refuses at *
  rw [none] at h
  cases h

theorem Refuses.not_goes (h : r.Refuses cs) : ¬Goes r cs := fun ⟨_, _, reads⟩ => reads.not_refuses h

theorem refuses_of_not_goes (h : ¬Goes r cs) : r.Refuses cs :=
  Option.eq_none_iff_forall_ne_some.2 fun p reads => h ⟨p.1, p.2, reads⟩

theorem reads_bind : (r >>= f).Reads cs b rest ↔ ∃ a mid, r.Reads cs a mid ∧ (f a).Reads mid b rest := by
  constructor
  · intro h
    unfold Reads at *
    rw [result_bind] at h
    obtain ⟨⟨a, mid⟩, first, second⟩ := Option.bind_eq_some_iff.1 h
    exact ⟨a, mid, first, second⟩
  · rintro ⟨a, mid, first, second⟩
    exact first.bind second

theorem Refuses.of_bind (h : (r >>= f).Refuses cs) : r.Refuses cs ∨ ∃ a mid, r.Reads cs a mid ∧ (f a).Refuses mid := by
  cases first : (r cs).result with
  | none => exact Or.inl first
  | some p =>
    unfold Refuses at h
    rw [result_bind, first] at h
    exact Or.inr ⟨p.1, p.2, first, h⟩

theorem Reads.of_pure (h : (pure a : Rule α).Reads cs a' rest) : a' = a ∧ rest = cs := by
  obtain ⟨rfl, rfl⟩ := Prod.mk.inj (Option.some.inj h)
  exact ⟨rfl, rfl⟩

theorem Goes.of_bind (h : Goes (r >>= f) cs) : Goes r cs := by
  obtain ⟨b, rest, reads⟩ := h
  obtain ⟨a, mid, first, _⟩ := reads_bind.1 reads
  exact ⟨a, mid, first⟩

/-! ## Choices and options -/

theorem Reads.of_orElse (h : (r.orElse r').Reads cs a rest) :
    r.Reads cs a rest ∨ r.Refuses cs ∧ r'.Reads cs a rest := by
  unfold Reads Refuses at *
  rw [result_orElse] at h
  cases first : (r cs).result with
  | none =>
    rw [first, Option.none_or] at h
    exact Or.inr ⟨rfl, h⟩
  | some p =>
    rw [first, Option.some_or] at h
    exact Or.inl h

theorem Reads.of_choice {rs : List (Rule α)} (h : (choice rs).Reads cs a rest) : ∃ r ∈ rs, r.Reads cs a rest := by
  induction rs with
  | nil => cases h
  | cons r rs ih =>
    rcases Reads.of_orElse h with reads | ⟨_, reads⟩
    · exact ⟨r, List.mem_cons_self, reads⟩
    · obtain ⟨r', mem, reads⟩ := ih reads
      exact ⟨r', List.mem_cons_of_mem r mem, reads⟩

theorem Reads.of_opt {o : Option α} (h : (Rule.opt r).Reads cs o rest) :
    (o = none ∧ rest = cs) ∨ ∃ a, o = some a ∧ r.Reads cs a rest := by
  unfold Reads Rule.opt at *
  split at h
  · obtain ⟨rfl, rfl⟩ := Prod.mk.inj (Option.some.inj h)
    exact Or.inl ⟨rfl, rfl⟩
  · cases first : (r cs).result with
    | none =>
      simp only [first, Option.some.injEq, Prod.mk.injEq] at h
      exact Or.inl ⟨h.1.symm, h.2.symm⟩
    | some p =>
      simp only [first, Option.some.injEq, Prod.mk.injEq] at h
      exact Or.inr ⟨p.1, h.1.symm, congrArg some (Prod.ext rfl h.2)⟩

theorem Reads.of_absent {u : Unit} (h : (Rule.absent r).Reads cs u rest) : rest = cs ∧ r.Refuses cs := by
  have h : _ = some (u, rest) := (result_noting cs false _).symm.trans h
  unfold Refuses
  cases first : (r cs).result with
  | none =>
    simp only [first, Option.some.injEq, Prod.mk.injEq] at h
    exact ⟨h.2.symm, rfl⟩
  | some p =>
    simp only [first] at h
    cases h

/-! ## Repetitions -/

theorem Repeats.refuses {as : List α} (h : Repeats r cs as rest) : r.Refuses rest := by
  induction h with
  | stop refuses => exact refuses
  | step _ _ _ ih => exact ih

/-- What a repetition reads was read one by one, if each item has a character at least. -/
theorem Repeats.of_many {as : List α} (consumes : Consumes r) (h : (Rule.many r).Reads cs as rest) :
    Repeats r cs as rest := by
  have empty : r.Refuses [] := by
    refine Option.eq_none_iff_forall_ne_some.2 fun p reads => ?_
    have reads : r.Reads [] p.1 p.2 := reads
    exact absurd (consumes reads) (Nat.not_lt_zero _)
  have bounded : ∀ n {cs as}, cs.length ≤ n → (upTo r n).Reads cs as rest → Repeats r cs as rest := by
    intro n
    induction n with
    | zero =>
      intro cs as none h
      obtain rfl := List.length_eq_zero_iff.1 (Nat.le_zero.1 none)
      obtain ⟨rfl, rfl⟩ := Reads.of_pure h
      exact .stop empty
    | succ n ih =>
      intro cs as enough h
      unfold Reads upTo at h
      split at h
      · rename_i none
        obtain ⟨rfl, rfl⟩ := Prod.mk.inj (Option.some.inj h)
        exact .stop (List.isEmpty_iff.1 none ▸ empty)
      · cases first : (r cs).result with
        | none =>
          simp only [first] at h
          obtain ⟨rfl, rfl⟩ := Prod.mk.inj (Option.some.inj h)
          exact .stop first
        | some p =>
          have shorter : p.2.length < cs.length := consumes (a := p.1) first
          simp only [first, Nat.ne_of_lt shorter, if_false, Option.map_eq_some_iff] at h
          obtain ⟨⟨more, rest'⟩, reads, eq⟩ := h
          obtain ⟨rfl, rfl⟩ := Prod.mk.inj eq
          exact .step first shorter (ih (by omega) reads)
  exact bounded cs.length (Nat.le_refl _) h

theorem Repeats.last {as : List α} (h : Repeats r cs as rest) : rest = cs ∨ ∃ a mid, r.Reads mid a rest := by
  induction h with
  | stop _ => exact Or.inl rfl
  | @step cs mid rest a as reads _ _ ih =>
    rcases ih with rfl | last
    · exact Or.inr ⟨a, cs, reads⟩
    · exact Or.inr last

/-! ## Words and characters -/

theorem Reads.of_text {w : String} {u : Unit} (h : (text w).Reads cs u rest) : cs = w.toList ++ rest := by
  unfold Reads at h
  rw [result_text, Option.map_eq_some_iff] at h
  obtain ⟨rest', found, eq⟩ := h
  rw [← (Prod.mk.inj eq).2]
  exact (List.isPrefixOf?_eq_some_iff_append_eq.1 found).symm

theorem Reads.of_word {w : String} {u : Unit} (h : (word w).Reads cs u rest) : cs = w.toList ++ rest :=
  Reads.of_text ((result_noting cs false (text w)).symm.trans h)

variable {p : Char → Bool}

theorem Reads.of_one {c : Char} (h : (one p).Reads cs c rest) : cs = c :: rest ∧ p c = true := by
  unfold Reads one at h
  cases cs with
  | nil => cases h
  | cons d cs =>
    by_cases here : p d = true
    · simp only [here, if_true] at h
      obtain ⟨rfl, rfl⟩ := Prod.mk.inj (Option.some.inj h)
      exact ⟨rfl, here⟩
    · simp only [here] at h
      cases h

theorem Reads.of_run {run : List Char} (h : (Rule.run p).Reads cs run rest) :
    run = cs.takeWhile p ∧ rest = cs.dropWhile p := by
  obtain ⟨rfl, rfl⟩ := Prod.mk.inj (Option.some.inj h)
  exact ⟨rfl, rfl⟩

theorem consumes_word {w : String} (some : w.toList ≠ []) : Consumes (word w) := by
  intro cs _ rest h
  have : 0 < w.toList.length := List.length_pos_iff.2 some
  rw [h.of_word, List.length_append]
  omega

end DocTree.TypeExpr.Rule
