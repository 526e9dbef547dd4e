import DocTree.Proofs.TypeExpr.Printed

/-!
# What several printed types are read as

* `reads_separated` : some items, with a word between them, are read one by one; `reads_list` : so are listed types;
* `reads_tuple`, `reads_arguments`, `reads_parenthesized`, `reads_operator` : types without suffix that hold others;
* `reads_stacked` : types with suffixes; `reads_intersection`, `reads_union` : types that are joined, or one alone.
-/

namespace DocTree.TypeExpr

open Rule Grammar Text

variable {cs rest stops : List Char} {e : Expr} {w : String}

/-! ## One by one -/

/-- Items with a word between them are read one by one, if what comes behind each is fit to follow it. -/
theorem reads_separated {α : Type} {r : Rule α} {before after : List Char} {d : Char} {ds : List Char}
    (spelled : w.toList = d :: ds) (word : isBlank d = false) (left : ∀ c ∈ before, isBlank c = true)
    (right : ∀ c ∈ after, isBlank c = true) {items : List (List Char × α)} (some : items ≠ [])
    (solid : ∀ i ∈ items, ∀ rest, ∀ c ∈ (i.1 ++ rest).head?, isBlank c = false)
    (reads : ∀ i ∈ items, ∀ {rest}, Fence stops rest → r.Reads (i.1 ++ rest) i.2 rest)
    (between : ∀ cs, Fence stops (before ++ (w.toList ++ (after ++ cs)))) (fence : Fence stops rest)
    (last : (spaced w).Refuses rest) :
    (separated r w).Reads ((before ++ (w.toList ++ after)).intercalate (items.map Prod.fst) ++ rest)
      (items.map Prod.snd) rest := by
  have more : ∀ others : List (List Char × α), (∀ i ∈ others, i ∈ items) →
      Fence stops ((others.map Prod.fst).flatMap (before ++ (w.toList ++ after) ++ ·) ++ rest) ∧
        Repeats (do spaced w; r) ((others.map Prod.fst).flatMap (before ++ (w.toList ++ after) ++ ·) ++ rest)
          (others.map Prod.snd) rest := by
    intro others among
    induction others with
    | nil => exact ⟨fence, .stop last.bind⟩
    | cons i others ih =>
      obtain ⟨follows, repeats⟩ := ih fun i mem => among i (List.mem_cons_of_mem _ mem)
      have mem : i ∈ items := among i List.mem_cons_self
      simp only [List.map_cons, List.flatMap_cons, List.append_assoc] at follows repeats ⊢
      refine ⟨between _, .step ((reads_spaced spelled word left right ?_).bind (reads i mem follows)) ?_ repeats⟩
      · exact solid i mem _
      · simp only [spelled, List.length_append, List.length_cons]
        omega
  cases items with
  | nil => exact absurd rfl some
  | cons first others =>
    obtain ⟨follows, repeats⟩ := more others fun i mem => List.mem_cons_of_mem first mem
    rw [List.map_cons, List.map_cons, intercalate_cons, List.append_assoc]
    exact (reads first List.mem_cons_self follows).bind (repeats.many.bind (reads_pure ..))

theorem length_le_intercalate {separator : List Char} {texts : List (List Char)} {text : List Char}
    (mem : text ∈ texts) : text.length ≤ (separator.intercalate texts).length := by
  have flat : ∀ others : List (List Char), text ∈ others → text.length ≤ (others.flatMap (separator ++ ·)).length := by
    intro others mem
    induction others with
    | nil => cases mem
    | cons other others ih =>
      rw [List.flatMap_cons, List.length_append, List.length_append]
      rcases List.mem_cons.1 mem with rfl | mem
      · omega
      · have := ih mem
        omega
  cases texts with
  | nil => cases mem
  | cons first others =>
    rw [intercalate_cons, List.length_append]
    rcases List.mem_cons.1 mem with rfl | mem
    · omega
    · have := flat others mem
      omega

/-! ## Lists of types -/

theorem ReadAs.union_below (h : ReadAs union closing cs e) {n : Nat} (length : cs.length < n)
    (fence : Fence closing rest) : (level n).union.Reads (cs ++ rest) e rest := by
  cases n with
  | zero => exact absurd length (Nat.not_lt_zero _)
  | succ n => exact h (Nat.le_of_lt_succ length) fence

theorem ReadAs.operand_below (h : ReadAs suffixed afterOperand cs e) {n : Nat} (length : cs.length < n)
    (fence : Fence afterOperand rest) : (level n).operand.Reads (cs ++ rest) e rest := by
  cases n with
  | zero => exact absurd length (Nat.not_lt_zero _)
  | succ n => exact h (Nat.le_of_lt_succ length) fence

/-- Texts that begin like types and are read as expressions, with these. -/
def Listed (items : List (List Char × Expr)) : Prop := ∀ i ∈ items, Begins i.1 ∧ ReadAs union closing i.1 i.2

variable {items : List (List Char × Expr)}

def listText (items : List (List Char × Expr)) : List Char := ", ".toList.intercalate (items.map Prod.fst)

/-- A list of types is read, if one of the characters that close a list follows. -/
theorem reads_list (h : Listed items) (some : items ≠ []) {n : Nat} (length : (listText items).length < n)
    (fence : Fence closing rest) (last : ',' ∉ (rest.dropWhile isBlank).head?) :
    (separated (level n).union ",").Reads (listText items ++ rest) (items.map Prod.snd) rest := by
  have comma : ", ".toList = [] ++ (",".toList ++ [' ']) := rfl
  unfold listText at length ⊢
  rw [comma]
  refine reads_separated rfl (by decide) (List.forall_mem_nil _) (by decide) some
    (fun i mem rest => (h i mem).1.solid rest) (fun i mem rest fence => (h i mem).2.union_below ?_ fence)
    (fun cs => fence_cons (by decide) (by decide) _) fence ?_
  · exact Nat.lt_of_le_of_lt (length_le_intercalate (List.mem_map_of_mem mem)) length
  · exact (reads_blanks rest).bind_refuses (refuses_word_head (w := ",") rfl last).bind

theorem closes {c : Char} (mem : c ∈ [']', '>']) (rest : List Char) : Fence closing (c :: rest) ∧
    ',' ∉ ((c :: rest).dropWhile isBlank).head? ∧ ∀ d ∈ (c :: rest).head?, isBlank d = false := by
  have closers : ∀ c ∈ [']', '>'], c ∈ closing ∧ isBlank c = false ∧ ',' ≠ c := by decide
  obtain ⟨mem, solid, other⟩ := closers c mem
  refine ⟨fence_cons mem solid rest, ?_, fun d head => Option.some.inj head ▸ solid⟩
  rw [List.dropWhile_cons_of_neg (Bool.eq_false_iff.1 solid)]
  exact not_mem_head other

theorem Listed.solid (h : Listed items) (some : items ≠ []) (rest : List Char) :
    ∀ c ∈ (listText items ++ rest).head?, isBlank c = false := by
  cases items with
  | nil => exact absurd rfl some
  | cons first others =>
    unfold listText
    rw [List.map_cons, intercalate_cons, List.append_assoc]
    exact (h first List.mem_cons_self).1.solid _

/-- A tuple is read with all its elements. -/
theorem reads_tuple (h : Listed items) :
    ReadAs primary afterPrimary ('[' :: (listText items ++ [']'])) (.tuple (items.map Prod.snd)) := by
  intro n rest length _
  obtain ⟨fence, comma, solid⟩ := closes (c := ']') (by decide) rest
  have close : (do blanks; word "]"; return Expr.tuple ((some (items.map Prod.snd)).getD []) : Rule Expr).Reads
      (']' :: rest) (.tuple (items.map Prod.snd)) rest :=
    (reads_blanks_solid solid).bind ((reads_word "]" rest).bind (reads_pure ..))
  have read : (tuple (level n)).Reads ('[' :: (listText items ++ ']' :: rest)) (.tuple (items.map Prod.snd)) rest := by
    by_cases none : items = []
    · subst none
      have ends : ∀ c ∈ (']' :: rest).head?, opens c = false := fun c head => Option.some.inj head ▸ rfl
      have empty : (elements (level n)).Refuses (']' :: rest) := refuses_named.2 (refuses_union n ends).bind
      exact reads_named.2 ((reads_word "[" _).bind ((reads_blanks_solid solid).bind (empty.opt.bind close)))
    · have bound : (listText items).length < n := by
        simp only [List.length_cons, List.length_append] at length
        omega
      have elements : (elements (level n)).Reads (listText items ++ ']' :: rest) (items.map Prod.snd) (']' :: rest) :=
        reads_named.2 (reads_list h none bound fence comma)
      refine reads_named.2 ((reads_word "[" _).bind ((reads_blanks_solid (h.solid none _)).bind
        ((elements.opt ?_).bind close)))
      simp
  rw [List.cons_append, List.append_assoc, List.singleton_append]
  exact primary_tuple read

/-- A name is read with its arguments. -/
theorem reads_arguments {name : String} (dotted : Dotted name)
    (plain : ∀ first ∈ (parts '.' name).head?, first ∉ keywords) (h : Listed items) (some : items ≠ []) :
    ReadAs primary afterPrimary (name.toList ++ '<' :: (listText items ++ ['>'])) (.name name (items.map Prod.snd)) := by
  intro n rest length _
  obtain ⟨fence, comma, solid⟩ := closes (c := '>') (by decide) rest
  have bound : (listText items).length < n := by
    simp only [List.length_cons, List.length_append] at length
    omega
  have after : Fence afterName ('<' :: (listText items ++ '>' :: rest)) := fence_cons List.mem_cons_self (by decide) _
  have left : (spaced "<").Reads ('<' :: (listText items ++ '>' :: rest)) () (listText items ++ '>' :: rest) :=
    reads_spaced (w := "<") rfl (by decide) (List.forall_mem_nil _) (List.forall_mem_nil _) (h.solid some _)
  have args : (arguments (level n)).Reads ('<' :: (listText items ++ '>' :: rest)) (items.map Prod.snd) rest :=
    reads_named.2 (left.bind ((reads_list h some bound fence comma).bind
      ((reads_blanks_solid solid).bind ((reads_word ">" rest).bind (reads_pure ..)))))
  rw [List.append_assoc, List.cons_append, List.append_assoc, List.singleton_append]
  exact reads_reference_next dotted plain after
    (reads_named.2 ((reads_path dotted after).bind ((args.opt nofun).bind (reads_pure ..))))

/-! ## Parentheses and words in front -/

/-- A type in parentheses is read: it is no parameter of a function. -/
theorem reads_parenthesized (h : ReadAs union closing cs e) (begins : Begins cs) :
    ReadAs primary afterPrimary ('(' :: (cs ++ [')'])) e := by
  intro n rest length _
  have bound : cs.length < n := by
    simp only [List.length_cons, List.length_append] at length
    omega
  have fence : ∀ {stops : List Char}, ')' ∈ stops → Fence stops (')' :: rest) := fun mem =>
    fence_cons mem (by decide) rest
  have open' : (word "(").Reads ('(' :: (cs ++ ')' :: rest)) () (cs ++ ')' :: rest) := reads_word "(" _
  have inner := reads_blanks_solid (begins.solid (')' :: rest))
  have function : (function (level n)).Refuses ('(' :: (cs ++ ')' :: rest)) := by
    have none : (parameters (level n)).Refuses (cs ++ ')' :: rest) :=
      refuses_named.2 (begins.untyped (level n) (fence (by decide))).bind
    have close : (word ")").Refuses (cs ++ ')' :: rest) :=
      refuses_word_head rfl (begins.not_head _ (by decide))
    exact refuses_named.2 (open'.bind_refuses (inner.bind_refuses (none.opt.bind_refuses
      (inner.bind_refuses close.bind))))
  have read : (parenthesized (level n)).Reads ('(' :: (cs ++ ')' :: rest)) e rest := by
    have solid : ∀ c ∈ (')' :: rest).head?, isBlank c = false := fun c head => Option.some.inj head ▸ rfl
    exact reads_named.2 (open'.bind (inner.bind ((h.union_below bound (fence (by decide))).bind
      ((reads_blanks_solid solid).bind ((reads_word ")" rest).bind (reads_pure ..))))))
  rw [List.cons_append, List.append_assoc, List.singleton_append]
  exact reads_named.2 (function.next read.first)

/-- A type with a word in front is read, with its suffixes. -/
theorem reads_operator (word : w ∈ operators) (h : ReadAs suffixed afterOperand cs e) (begins : Begins cs) :
    ReadAs primary afterOperand (w.toList ++ ' ' :: cs) (.operator w e) := by
  intro n rest length fence
  have bound : cs.length < n := by
    simp only [List.length_cons, List.length_append] at length
    omega
  have blank : someBlanks.Reads (' ' :: (cs ++ rest)) () (cs ++ rest) := by
    have reads := reads_someBlanks (c := ' ') (by decide) (cs ++ rest)
    rwa [dropWhile_of_solid (begins.solid rest)] at reads
  have read : (operator (level n)).Reads (w.toList ++ ' ' :: (cs ++ rest)) (.operator w e) rest :=
    reads_named.2 ((reads_operatorWord word _).bind (blank.bind ((h.operand_below bound fence).bind (reads_pure ..))))
  rw [List.append_assoc, List.cons_append]
  exact primary_operator read

/-! ## Suffixes -/

/-- The text of some suffixes. -/
def brackets : Nat → List Char
  | 0 => []
  | n + 1 => '[' :: ']' :: brackets n

/-- An array of arrays, so many times. -/
def stacked : Nat → Expr → Expr
  | 0, e => e
  | n + 1, e => stacked n (.array e)

theorem foldl_suffixes (n : Nat) (e : Expr) :
    (List.replicate n ()).foldl (fun e _ => Expr.array e) e = stacked n e := by
  induction n generalizing e with
  | zero => rfl
  | succ n ih => exact ih (.array e)

/-- A type is read with all its suffixes. -/
theorem reads_stacked (h : ReadAs primary afterPrimary cs e) (n : Nat) :
    ReadAs suffixed afterOperand (cs ++ brackets n) (stacked n e) := by
  intro depth rest length fence
  have after : ∀ n, Fence afterPrimary (brackets n ++ rest) := by
    intro n
    cases n with
    | zero => exact fence.mono (List.subset_cons_self ..)
    | succ n => exact fence_cons List.mem_cons_self (by decide) _
  have suffixes : Repeats suffix (brackets n ++ rest) (List.replicate n ()) rest := by
    clear length
    induction n with
    | zero => exact .stop (refuses_named.2 (refuses_spaced (w := "[") rfl fence (by decide)).bind)
    | succ n ih =>
      have left : (spaced "[").Reads ('[' :: ']' :: (brackets n ++ rest)) () (']' :: (brackets n ++ rest)) :=
        reads_spaced (w := "[") rfl (by decide) (List.forall_mem_nil _) (List.forall_mem_nil _)
          fun c head => Option.some.inj head ▸ rfl
      have shorter : (brackets n ++ rest).length < ('[' :: ']' :: (brackets n ++ rest)).length := by
        simp only [List.length_cons]
        omega
      exact .step (reads_named.2 (left.bind (reads_word "]" _))) shorter ih
  have bound : cs.length ≤ depth := by
    simp only [List.length_append] at length
    omega
  rw [List.append_assoc, ← foldl_suffixes]
  exact reads_named.2 ((h bound (after n)).bind (suffixes.many.bind (reads_pure ..)))

theorem reads_unstacked (h : ReadAs primary afterOperand cs e) : ReadAs suffixed afterOperand cs e := by
  intro n rest length fence
  have none : suffix.Refuses rest := refuses_named.2 (refuses_spaced (w := "[") rfl fence (by decide)).bind
  exact reads_named.2 ((h length fence).bind ((Repeats.stop none).many.bind (reads_pure ..)))

/-! ## Types that are joined -/

/-- Joined types are read one by one. -/
theorem reads_joined {rule : Level → Rule Expr} {stops : List Char} {join : Char} (spelled : w.toList = [join])
    (joins : join = '|' ∨ join = '&') (out : join ∉ stops) (some : items ≠ [])
    (h : ∀ i ∈ items, Begins i.1 ∧ ReadAs rule (join :: stops) i.1 i.2) {n : Nat}
    (length : ([' ', join, ' '].intercalate (items.map Prod.fst)).length ≤ n) (fence : Fence stops rest) :
    (separated (rule (level n)) w).Reads ([' ', join, ' '].intercalate (items.map Prod.fst) ++ rest)
      (items.map Prod.snd) rest := by
  have solid : isBlank join = false := by rcases joins with rfl | rfl <;> decide
  have word : [' ', join, ' '] = [' '] ++ (w.toList ++ [' ']) := by
    rw [spelled]
    rfl
  rw [word] at length ⊢
  refine reads_separated spelled solid (by decide) (by decide) some (fun i mem rest => (h i mem).1.solid rest)
    (fun i mem rest fence => (h i mem).2 ?_ fence) (fun cs => ?_) (fence.mono (List.subset_cons_self ..))
    (refuses_spaced spelled fence out)
  · exact Nat.le_trans (length_le_intercalate (List.mem_map_of_mem mem)) length
  · rw [spelled]
    exact fence_spaced List.mem_cons_self joins _

/-- Operands are read as an intersection, one alone as itself. -/
theorem reads_intersection (some : items ≠ [])
    (h : ∀ i ∈ items, Begins i.1 ∧ ReadAs suffixed afterOperand i.1 i.2) :
    ReadAs intersection afterPart (" & ".toList.intercalate (items.map Prod.fst))
      (combine .intersection (items.map Prod.snd)) := by
  intro n rest length fence
  have read := reads_joined (w := "&") rfl (Or.inr rfl) (by decide) some h length fence
  exact reads_named.2 (read.bind (reads_pure ..))

/-- Intersections are read as a union, one alone as itself. -/
theorem reads_union (some : items ≠ []) (h : ∀ i ∈ items, Begins i.1 ∧ ReadAs intersection afterPart i.1 i.2) :
    ReadAs union closing (" | ".toList.intercalate (items.map Prod.fst)) (combine .union (items.map Prod.snd)) := by
  intro n rest length fence
  have read := reads_joined (w := "|") rfl (Or.inl rfl) (by decide) some h length fence
  exact reads_named.2 (read.bind (reads_pure ..))

end DocTree.TypeExpr
