import DocTree.TypeExpr.Rule
import Mathlib.Data.List.Basic

/-!
# What a rule reads

A rule has one outcome on a text, so two relations say all about it.

* `Reads r cs a rest` : at the start of `cs` the rule reads `a`, and `rest` is left; `Refuses r cs` : it reads nothing
  there;
* one lemma for each way to put rules together: `Reads.bind`, `Refuses.orElse`, `Refuses.opt`, `Refuses.absent`, …;
* `Repeats r cs as rest` : the rule reads `as` one by one; `Repeats.many` : so does its repetition.
-/

namespace DocTree.TypeExpr.Rule

variable {α β : Type} {r r' : Rule α} {cs mid rest : List Char} {a : α} {b : β}

/-- The rule reads something at the start of a text, and the rest is left. -/
def Reads (r : Rule α) (cs : List Char) (a : α) (rest : List Char) : Prop := (r cs).result = some (a, rest)

def Refuses (r : Rule α) (cs : List Char) : Prop := (r cs).result = none

theorem reads_pure (a : α) (cs : List Char) : (pure a : Rule α).Reads cs a cs := rfl

/-! ## One behind the other -/

theorem Reads.bind {f : α → Rule β} (h : r.Reads cs a mid) (h' : (f a).Reads mid b rest) :
    (r >>= f).Reads cs b rest := by
  unfold Reads at *
  rw [result_bind, h]
  exact h'

theorem Reads.bind_refuses {f : α → Rule β} (h : r.Reads cs a mid) (h' : (f a).Refuses mid) :
    (r >>= f).Refuses cs := by
  unfold Reads at h
  unfold Refuses at *
  rw [result_bind, h]
  exact h'

theorem Refuses.bind {f : α → Rule β} (h : r.Refuses cs) : (r >>= f).Refuses cs := by
  unfold Refuses at *
  rw [result_bind, h]
  rfl

@[simp] theorem reads_named : r.named.Reads cs a rest ↔ r.Reads cs a rest := by
  unfold Reads
  rw [result_named]

@[simp] theorem refuses_named : r.named.Refuses cs ↔ r.Refuses cs := by
  unfold Refuses
  rw [result_named]

/-! ## Choices -/

theorem Reads.orElse (h : r.Reads cs a rest) : (r.orElse r').Reads cs a rest := by
  unfold Reads at *
  rw [result_orElse, h]
  rfl

theorem Refuses.orElse (h : r.Refuses cs) (h' : r'.Reads cs a rest) : (r.orElse r').Reads cs a rest := by
  unfold Reads Refuses at *
  rw [result_orElse, h]
  exact h'

theorem Refuses.orElse_refuses (h : r.Refuses cs) (h' : r'.Refuses cs) : (r.orElse r').Refuses cs := by
  unfold Refuses at *
  rw [result_orElse, h]
  exact h'

variable {rs : List (Rule α)}

theorem Reads.first (h : r.Reads cs a rest) : (choice (r :: rs)).Reads cs a rest := h.orElse

theorem Refuses.next (h : r.Refuses cs) (h' : (choice rs).Reads cs a rest) : (choice (r :: rs)).Reads cs a rest :=
  h.orElse h'

theorem refuses_choice (h : ∀ r ∈ rs, r.Refuses cs) : (choice rs).Refuses cs := by
  induction rs with
  | nil => rfl
  | cons r rs ih =>
    have first : r.Refuses cs := h r List.mem_cons_self
    exact first.orElse_refuses (ih fun r' mem => h r' (List.mem_cons_of_mem r mem))

/-! ## Options and repetitions -/

theorem Reads.opt (h : r.Reads cs a rest) (text : cs ≠ []) : (opt r).Reads cs (some a) rest := by
  unfold Reads at *
  unfold Rule.opt
  rw [if_neg fun none => text (List.isEmpty_iff.1 none)]
  simp only [h]

theorem Refuses.opt (h : r.Refuses cs) : (opt r).Reads cs none cs := by
  unfold Refuses at h
  unfold Reads Rule.opt
  split
  · rfl
  · simp only [h]

theorem Refuses.absent (h : r.Refuses cs) : (absent r).Reads cs () cs := by
  unfold Refuses at h
  unfold Reads
  refine (result_noting cs false _).trans ?_
  simp only [h]

theorem Reads.absent_refuses (h : r.Reads cs a rest) : (absent r).Refuses cs := by
  unfold Reads at h
  unfold Refuses
  refine (result_noting cs false _).trans ?_
  simp only [h]

/-- The rule reads some things one behind the other, each with a character at least, and no more after them. -/
inductive Repeats (r : Rule α) : List Char → List α → List Char → Prop
  | stop {cs : List Char} : r.Refuses cs → Repeats r cs [] cs
  | step {cs mid rest : List Char} {a : α} {as : List α} : r.Reads cs a mid → mid.length < cs.length →
      Repeats r mid as rest → Repeats r cs (a :: as) rest

/-- What a rule reads one by one, its repetition reads. -/
theorem Repeats.many {as : List α} (h : Repeats r cs as rest) : (many r).Reads cs as rest := by
  have bounded : ∀ n, cs.length ≤ n → (upTo r n).Reads cs as rest := by
    induction h with
    | @stop cs refuses =>
      intro n _
      unfold Refuses at refuses
      unfold Reads
      cases n with
      | zero => rfl
      | succ n =>
        unfold upTo
        split
        · rfl
        · simp only [refuses]
    | @step cs mid rest a as reads shorter _ ih =>
      intro n enough
      unfold Reads at *
      obtain ⟨n, rfl⟩ : ∃ m, n = m + 1 := ⟨n - 1, by omega⟩
      have text : ¬cs.isEmpty = true := by
        intro none
        rw [List.isEmpty_iff.1 none] at shorter
        exact absurd shorter (Nat.not_lt_zero _)
      unfold upTo
      rw [if_neg text]
      simp only [reads, Nat.ne_of_lt shorter, if_false, ih n (by omega), Option.map_some]
  exact bounded cs.length (Nat.le_refl _)

/-! ## Words and characters -/

theorem reads_text (w : String) (rest : List Char) : (text w).Reads (w.toList ++ rest) () rest := by
  unfold Reads
  rw [result_text, List.isPrefixOf?_eq_some_iff_append_eq.2 rfl]
  rfl

theorem refuses_text {w : String} (h : ¬w.toList <+: cs) : (text w).Refuses cs := by
  unfold Refuses
  rw [result_text, Option.map_eq_none_iff]
  refine Option.eq_none_iff_forall_ne_some.2 fun rest found => h ?_
  exact ⟨rest, List.isPrefixOf?_eq_some_iff_append_eq.1 found⟩

theorem reads_word (w : String) (rest : List Char) : (word w).Reads (w.toList ++ rest) () rest := by
  unfold Reads
  rw [word, result_noting]
  exact reads_text w rest

theorem refuses_word {w : String} (h : ¬w.toList <+: cs) : (word w).Refuses cs := by
  unfold Refuses
  rw [word, result_noting]
  exact refuses_text h

variable {p : Char → Bool}

theorem reads_one {c : Char} (h : p c = true) : (one p).Reads (c :: cs) c cs := by
  unfold Reads one
  simp only [h, if_true]

theorem refuses_one (h : ∀ c ∈ cs.head?, p c = false) : (one p).Refuses cs := by
  unfold Refuses one
  cases cs with
  | nil => rfl
  | cons c cs => simp [h c rfl]

theorem reads_run {run : List Char} (all : ∀ c ∈ run, p c = true) (h : ∀ c ∈ rest.head?, p c = false) :
    (Rule.run p).Reads (run ++ rest) run rest := by
  have stop : rest.takeWhile p = [] ∧ rest.dropWhile p = rest := by
    cases rest with
    | nil => exact ⟨rfl, rfl⟩
    | cons c rest =>
      have here : ¬p c = true := Bool.eq_false_iff.1 (h c rfl)
      exact ⟨List.takeWhile_cons_of_neg here, List.dropWhile_cons_of_neg here⟩
  unfold Reads Rule.run
  rw [List.takeWhile_append_of_pos all, List.dropWhile_append_of_pos all, stop.1, stop.2, List.append_nil]

end DocTree.TypeExpr.Rule
