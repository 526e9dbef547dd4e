import DocTree.Proofs.TypeExpr.Levels

/-!
# Where reading ends

A rule reads as far as it can, and what it reads could depend on all that comes behind. Here this is said of rules for
which it does not: they read the same in front of another end.

* `Next stops cs` : behind blanks comes one of some characters, if anything; `delimiters` : what closes a type;
* `Alike cs cs'` : two texts that are the same up to where each goes on with blanks and a delimiter, if at all;
* `Local strict k F r` : what the rule reads of a text with less than `k` characters, it reads in front of everything
  alike; `F` says what may follow; `Local.bind`, `Local.step`, `Local.opt`, `Local.many`, `Local.separated`, …
-/

namespace DocTree.TypeExpr

open Rule Grammar Text

variable {cs cs' rest rest' stops : List Char} {w : String}

/-! ## What comes next -/

/-- Behind blanks comes one of some characters, if anything. -/
def Next (stops cs : List Char) : Prop := ∀ c ∈ (cs.dropWhile isBlank).head?, c ∈ stops

/-- What closes a type that stands inside another one. -/
def delimiters : List Char := [',', ';', ']', '>', ')', '\x7d']

theorem next_nil (stops : List Char) : Next stops [] := nofun

theorem next_cons {c : Char} (mem : c ∈ stops) (solid : isBlank c = false) (cs : List Char) : Next stops (c :: cs) := by
  intro d head
  rw [List.dropWhile_cons_of_neg (Bool.eq_false_iff.1 solid)] at head
  exact Option.some.inj head ▸ mem

theorem Next.mono {stops' : List Char} (h : Next stops cs) (sub : stops ⊆ stops') : Next stops' cs :=
  fun c head => sub (h c head)

theorem next_append {run : List Char} (all : ∀ c ∈ run, isBlank c = true) : Next stops (run ++ cs) ↔ Next stops cs := by
  unfold Next
  rw [List.dropWhile_append_of_pos all]

/-- What follows directly is one of the characters, or a blank. -/
theorem Next.head (h : Next stops cs) {c : Char} (head : c ∈ cs.head?) (solid : isBlank c = false) : c ∈ stops := by
  refine h c ?_
  cases cs with
  | nil => cases head
  | cons d cs =>
    obtain rfl : d = c := Option.some.inj head
    rw [List.dropWhile_cons_of_neg (Bool.eq_false_iff.1 solid)]
    rfl

/-- A property that no blank has, nor any of the characters, is not there. -/
theorem Next.not_head (h : Next stops cs) {p : Char → Bool} (none : ∀ c ∈ stops, p c = false)
    (solid : ∀ c, p c = true → isBlank c = false) : ∀ c ∈ cs.head?, p c = false := by
  intro c head
  by_contra here
  have here : p c = true := by simpa using here
  have out := none c (h.head head (solid c here))
  rw [here] at out
  cases out

theorem Next.refuses_spaced {d : Char} {ds : List Char} (h : Next stops cs) (spelled : w.toList = d :: ds)
    (out : d ∉ stops) : (spaced w).Refuses cs :=
  (reads_blanks cs).bind_refuses (refuses_word_head spelled fun head => out (h d head)).bind

theorem next_of_head {d : Char} (h : d ∈ (cs.dropWhile isBlank).head?) : Next [d] cs := fun _ head =>
  List.mem_singleton.2 (Option.mem_unique head h)

theorem next_of_word {α : Type} {r : Rule α} {a : α} {d : Char} {ds : List Char} (spelled : w.toList = d :: ds)
    (h : (do blanks; let _ ← word w; r).Reads cs a rest) : Next [d] cs := by
  obtain ⟨_, mid, left, h⟩ := reads_bind.1 h
  obtain ⟨_, mid', here, _⟩ := reads_bind.1 h
  refine next_of_head ?_
  rw [← Reads.of_blanks left, here.of_word, spelled]
  rfl

/-! ## Texts that end alike -/

/-- The texts are the same up to where each goes on with blanks and a delimiter, if at all. -/
def Alike (cs cs' : List Char) : Prop := ∃ same tail tail', cs = same ++ tail ∧ cs' = same ++ tail' ∧
  Next delimiters tail ∧ Next delimiters tail'

namespace Alike

theorem symm (h : Alike cs cs') : Alike cs' cs := by
  obtain ⟨same, tail, tail', eq, eq', next, next'⟩ := h
  exact ⟨same, tail', tail, eq', eq, next', next⟩

theorem append (h : Alike rest rest') (used : List Char) : Alike (used ++ rest) (used ++ rest') := by
  obtain ⟨same, tail, tail', rfl, rfl, next, next'⟩ := h
  exact ⟨used ++ same, tail, tail', by rw [List.append_assoc], by rw [List.append_assoc], next, next'⟩

theorem of_next (h : Next delimiters cs) (h' : Next delimiters cs') : Alike cs cs' := ⟨[], cs, cs', rfl, rfl, h, h'⟩

/-- Among delimiters and others, the same comes next. -/
theorem next (h : Alike cs cs') (sub : delimiters ⊆ stops) (here : Next stops cs) : Next stops cs' := by
  obtain ⟨same, tail, tail', rfl, rfl, _, next'⟩ := h
  by_cases blank : ∀ c ∈ same, isBlank c = true
  · exact (next_append blank).2 (next'.mono sub)
  · have solid : same.dropWhile isBlank ≠ [] := fun none => blank (List.dropWhile_eq_nil_iff.1 none)
    unfold Next at here ⊢
    rw [List.dropWhile_append, if_neg (by simpa using solid)] at here ⊢
    rwa [List.head?_append_of_ne_nil _ solid] at here ⊢

/-- What comes next in one text and is no delimiter comes next in the other one, behind the same blanks. -/
theorem head (h : Alike cs cs') {d : Char} (here : d ∈ (cs.dropWhile isBlank).head?) (other : d ∉ delimiters) :
    d ∈ (cs'.dropWhile isBlank).head? ∧ cs'.head? = cs.head? := by
  obtain ⟨same, tail, tail', rfl, rfl, next, _⟩ := h
  have solid : ¬∀ c ∈ same, isBlank c = true := fun blank => other ((next_append blank).2 next d here)
  have some : same.dropWhile isBlank ≠ [] := fun none => solid (List.dropWhile_eq_nil_iff.1 none)
  have some' : same ≠ [] := fun none => solid (none ▸ List.forall_mem_nil _)
  rw [List.dropWhile_append, if_neg (by simpa using some)] at here ⊢
  rw [List.head?_append_of_ne_nil _ some] at here ⊢
  rw [List.head?_append_of_ne_nil _ some', List.head?_append_of_ne_nil _ some']
  exact ⟨here, rfl⟩

theorem not_head (h : Alike cs cs') {p : Char → Bool} (none : ∀ c ∈ delimiters, p c = false)
    (solid : ∀ c, p c = true → isBlank c = false) (here : ∀ c ∈ cs.head?, p c = false) :
    ∀ c ∈ cs'.head?, p c = false := by
  obtain ⟨same, tail, tail', rfl, rfl, _, next'⟩ := h
  cases same with
  | nil => exact next'.not_head none solid
  | cons c same => exact here

end Alike

/-! ## Rules that read the same in front of another end -/

variable {α β : Type} {strict strict' : Bool} {k : Nat} {F F' : List Char → Prop} {r r' : Rule α} {f : α → Rule β}

/-- What the rule reads of a text with less than `k` characters, a character at least if it is strict, it reads in front
of everything alike that may follow. -/
def Local (strict : Bool) (k : Nat) (F : List Char → Prop) (r : Rule α) : Prop :=
  ∀ ⦃cs a rest⦄, cs.length < k → r.Reads cs a rest → F rest → ∃ used, cs = used ++ rest ∧
    (strict = true → used ≠ []) ∧ ∀ ⦃rest'⦄, Alike rest rest' → F rest' → r.Reads (used ++ rest') a rest'

theorem Local.mono (h : Local strict k F r) {j : Nat} (le : j ≤ k) (sub : ∀ ⦃cs⦄, F' cs → F cs) :
    Local strict j F' r := by
  intro cs a rest lt reads follows
  obtain ⟨used, eq, some, same⟩ := h (Nat.lt_of_lt_of_le lt le) reads (sub follows)
  exact ⟨used, eq, some, fun rest' alike follows' => same alike (sub follows')⟩

theorem Local.congr (h : Local strict k F r) (same : ∀ cs a rest, r'.Reads cs a rest ↔ r.Reads cs a rest) :
    Local strict k F r' := by
  intro cs a rest lt reads follows
  obtain ⟨used, eq, some, local'⟩ := h lt ((same cs a rest).1 reads) follows
  exact ⟨used, eq, some, fun rest' alike follows' => (same _ a rest').2 (local' alike follows')⟩

theorem Local.named (h : Local strict k F r) : Local strict k F r.named := h.congr fun _ _ _ => reads_named

theorem Local.through (h : Local strict k F r) (sub : ∀ ⦃cs a rest⦄, r.Reads cs a rest → F rest → r'.Reads cs a rest) :
    ∀ ⦃cs a rest⦄, cs.length < k → r.Reads cs a rest → F rest → ∃ used, cs = used ++ rest ∧
      (strict = true → used ≠ []) ∧ ∀ ⦃rest'⦄, Alike rest rest' → F rest' → r'.Reads (used ++ rest') a rest' := by
  intro cs a rest lt reads follows
  obtain ⟨used, eq, some, same⟩ := h lt reads follows
  exact ⟨used, eq, some, fun rest' alike follows' => sub (same alike follows') follows'⟩

theorem Local.widen (h : Local strict k F r) (leaves : ∀ ⦃cs a rest⦄, r.Reads cs a rest → F' rest → F rest)
    (same : ∀ ⦃cs cs'⦄, Alike cs cs' → F cs → F' cs' → F cs') : Local strict k F' r := by
  intro cs a rest lt reads follows
  obtain ⟨used, eq, some, local'⟩ := h lt reads (leaves reads follows)
  exact ⟨used, eq, some, fun rest' alike follows' => local' alike (same alike (leaves reads follows) follows')⟩

theorem local_pure (a : α) : Local false k F (pure a) := by
  intro cs a' rest _ reads _
  obtain ⟨rfl, rfl⟩ := reads.of_pure
  exact ⟨[], rfl, nofun, fun rest' _ _ => reads_pure a' rest'⟩

/-- One behind the other: what the second one reads may follow the first one. -/
theorem Local.bind (first : Local strict k F' r) (more : ∀ a, Local strict' k F (f a))
    (follows : ∀ ⦃a cs b rest⦄, (f a).Reads cs b rest → F rest → F' cs) : Local (strict || strict') k F (r >>= f) := by
  intro cs b rest lt reads end'
  obtain ⟨a, mid, reads, reads'⟩ := reads_bind.1 reads
  obtain ⟨used, rfl, some, same⟩ := first lt reads (follows reads' end')
  rw [List.length_append] at lt
  obtain ⟨used', rfl, some', same'⟩ := more a (Nat.lt_of_le_of_lt (Nat.le_add_left ..) lt) reads' end'
  refine ⟨used ++ used', (List.append_assoc ..).symm, fun either => ?_, fun rest' alike end'' => ?_⟩
  · rcases Bool.or_eq_true_iff.1 either with here | here
    · exact List.append_ne_nil_of_left_ne_nil (some here) _
    · exact List.append_ne_nil_of_right_ne_nil _ (some' here)
  · have last := same' alike end''
    rw [List.append_assoc]
    exact (same (alike.append used') (follows last end'')).bind last

theorem Local.andThen (first : Local strict k (fun _ => True) r) (more : ∀ a, Local strict' k F (f a)) :
    Local (strict || strict') k F (r >>= f) := first.bind more fun _ _ _ _ _ _ => True.intro

theorem Local.map {g : α → β} (h : Local strict k F r) : Local strict k F (r >>= fun a => pure (g a)) := by
  have both := h.bind (fun a => local_pure (g a)) fun _ _ _ _ reads here => reads.of_pure.2 ▸ here
  rwa [Bool.or_false] at both

/-- Behind a character the text is shorter. -/
theorem Local.step (first : Local true (k + 1) (fun _ => True) r) (more : ∀ a, Local strict k F (f a)) :
    Local true (k + 1) F (r >>= f) := by
  intro cs b rest lt reads end'
  obtain ⟨a, mid, reads, reads'⟩ := reads_bind.1 reads
  obtain ⟨used, rfl, some, same⟩ := first lt reads True.intro
  have := List.length_pos_iff.2 (some rfl)
  rw [List.length_append] at lt
  obtain ⟨used', rfl, _, same'⟩ := more a (by omega) reads' end'
  refine ⟨used ++ used', (List.append_assoc ..).symm, fun _ => ?_, fun rest' alike end'' => ?_⟩
  · exact List.append_ne_nil_of_left_ne_nil (some rfl) _
  · rw [List.append_assoc]
    exact (same (alike.append used') True.intro).bind (same' alike end'')

theorem Local.orElse (h : Local strict k F r) (h' : Local strict k F r')
    (apart : ∀ ⦃cs a rest⦄, r'.Reads cs a rest → F rest → r.Refuses cs) : Local strict k F (r.orElse r') := by
  intro cs a rest lt reads end'
  rcases reads.of_orElse with reads | ⟨_, reads⟩
  · obtain ⟨used, eq, some, same⟩ := h lt reads end'
    exact ⟨used, eq, some, fun rest' alike end'' => (same alike end'').orElse⟩
  · obtain ⟨used, eq, some, same⟩ := h' lt reads end'
    exact ⟨used, eq, some, fun rest' alike end'' => (apart (same alike end'') end'').orElse (same alike end'')⟩

/-- An option that is not taken is not taken either in front of another end, if what is read in its place says so. -/
theorem Local.opt {f : Option α → Rule β} (item : Local true k F' r) (found : ∀ a, Local strict k F (f (some a)))
    (none : Local strict k F (f none)) (follows : ∀ ⦃a cs b rest⦄, (f (some a)).Reads cs b rest → F rest → F' cs)
    (refuses : ∀ ⦃cs b rest⦄, (f Option.none).Reads cs b rest → F rest → r.Refuses cs) :
    Local strict k F (Rule.opt r >>= f) := by
  intro cs b rest lt reads end'
  obtain ⟨o, mid, reads, reads'⟩ := reads_bind.1 reads
  rcases reads.of_opt with ⟨rfl, rfl⟩ | ⟨a, rfl, here⟩
  · obtain ⟨used, eq, some, same⟩ := none lt reads' end'
    refine ⟨used, eq, some, fun rest' alike end'' => ?_⟩
    have last := same alike end''
    exact (refuses last end'').opt.bind last
  · obtain ⟨used, rfl, some, same⟩ := item lt here (follows reads' end')
    rw [List.length_append] at lt
    obtain ⟨used', rfl, _, same'⟩ := found a (Nat.lt_of_le_of_lt (Nat.le_add_left ..) lt) reads' end'
    refine ⟨used ++ used', (List.append_assoc ..).symm, fun _ => ?_, fun rest' alike end'' => ?_⟩
    · exact List.append_ne_nil_of_left_ne_nil (some rfl) _
    · have last := same' alike end''
      have here := same (alike.append used') (follows last end'')
      rw [List.append_assoc]
      exact (here.opt (List.append_ne_nil_of_left_ne_nil (some rfl) _)).bind last

theorem Local.optThen {f : Option α → Rule β} (item : Local true k (fun _ => True) r)
    (found : ∀ a, Local strict k F (f (some a))) (none : Local strict k F (f none))
    (refuses : ∀ ⦃cs b rest⦄, (f Option.none).Reads cs b rest → F rest → r.Refuses cs) :
    Local strict k F (Rule.opt r >>= f) := item.opt found none (fun _ _ _ _ _ _ => True.intro) refuses

/-! ### Repetitions -/

theorem Rule.Repeats.follows {as : List α} (h : Repeats r cs as rest) (end' : F rest) : F cs ∨ Goes r cs := by
  cases h with
  | stop => exact Or.inl end'
  | @step _ mid _ a _ reads => exact Or.inr ⟨a, mid, reads⟩

/-- What is read one by one is read one by one in front of another end. -/
theorem Rule.Repeats.alike {as : List α} (item : Local true k (fun cs => F cs ∨ Goes r cs) r)
    (ends : ∀ ⦃cs⦄, F cs → r.Refuses cs) (h : Repeats r cs as rest) (lt : cs.length < k) (end' : F rest) :
    ∃ used, cs = used ++ rest ∧ ∀ rest', Alike rest rest' → F rest' → Repeats r (used ++ rest') as rest' := by
  induction h with
  | @stop cs _ => exact ⟨[], rfl, fun rest' _ end'' => .stop (ends end'')⟩
  | @step cs mid rest a as reads shorter more ih =>
    obtain ⟨used', rfl, same'⟩ := ih (Nat.lt_trans shorter lt) end'
    obtain ⟨used, rfl, some, same⟩ := item lt reads (more.follows end')
    refine ⟨used ++ used', (List.append_assoc ..).symm, fun rest' alike end'' => ?_⟩
    have last := same' rest' alike end''
    have here := same (alike.append used') (last.follows end'')
    rw [List.append_assoc]
    refine .step here ?_ last
    have := List.length_pos_iff.2 (some rfl)
    simp only [List.length_append]
    omega

theorem Local.many (consumes : Consumes r) (item : Local true k (fun cs => F cs ∨ Goes r cs) r)
    (ends : ∀ ⦃cs⦄, F cs → r.Refuses cs) : Local false k F (Rule.many r) := by
  intro cs as rest lt reads end'
  obtain ⟨used, eq, same⟩ := (Repeats.of_many consumes reads).alike item ends lt end'
  exact ⟨used, eq, nofun, fun rest' alike end'' => (same rest' alike end'').many⟩

/-! ### Blanks -/

/-- Blanks in front of something end where it begins. -/
theorem Local.blanks (h : Local true k F r) : Local true k F (do Grammar.blanks; r) := by
  intro cs a rest lt reads end'
  obtain ⟨_, mid, left, reads⟩ := reads_bind.1 reads
  obtain rfl := Reads.of_blanks left
  have shorter : (cs.dropWhile isBlank).length < k := Nat.lt_of_le_of_lt (List.dropWhile_suffix _).length_le lt
  obtain ⟨used, eq, some, same⟩ := h shorter reads end'
  refine ⟨cs.takeWhile isBlank ++ used, ?_, fun _ => ?_, fun rest' alike end'' => ?_⟩
  · rw [List.append_assoc, ← eq, List.takeWhile_append_dropWhile]
  · exact List.append_ne_nil_of_right_ne_nil _ (some rfl)
  · obtain ⟨c, used, rfl⟩ := List.exists_cons_of_ne_nil (some rfl)
    have solid : isBlank c = false := by
      have := List.head?_dropWhile_not isBlank cs
      rw [eq] at this
      simpa using this
    rw [List.append_assoc]
    refine (reads_blanks_run (fun c mem => List.mem_takeWhile_imp mem) fun d head => ?_).bind (same alike end'')
    exact Option.some.inj head ▸ solid

theorem Local.someBlanks (h : Local true k F r) : Local true k F (do Grammar.someBlanks; r) := by
  intro cs a rest lt reads end'
  obtain ⟨_, mid, left, reads⟩ := reads_bind.1 reads
  obtain ⟨b, more, rfl, blank, rfl⟩ := Reads.of_someBlanks left
  rw [List.dropWhile_cons_of_pos blank] at reads
  have both : (do Grammar.blanks; r).Reads more a rest := (reads_blanks more).bind reads
  obtain ⟨used, rfl, _, same⟩ := h.blanks (Nat.lt_of_succ_lt lt) both end'
  refine ⟨b :: used, rfl, nofun, fun rest' alike end'' => ?_⟩
  obtain ⟨_, mid, left, reads⟩ := reads_bind.1 (same alike end'')
  rw [Reads.of_blanks left] at reads
  exact (reads_someBlanks blank _).bind reads

theorem local_word (some : w.toList ≠ []) : Local true k F (word w) := fun _ _ _ _ reads _ =>
  ⟨w.toList, reads.of_word, fun _ => some, fun rest' _ _ => reads_word w rest'⟩

/-- A word with blanks around, in front of something. -/
theorem Local.spaced (some : w.toList ≠ []) (h : Local true k F r) : Local true (k + 1) F (do Grammar.spaced w; r) := by
  have inner : Local true (k + 1) F (do Grammar.blanks; let _ ← word w; Grammar.blanks; r) :=
    (Local.step (local_word some) fun _ => h.blanks).blanks
  refine inner.congr fun cs a rest => ?_
  simp only [Grammar.spaced, reads_bind]
  constructor
  · rintro ⟨u, mid, ⟨u', mid', left, u'', mid'', here, right⟩, more⟩
    exact ⟨u', mid', left, u'', mid'', here, u, mid, right, more⟩
  · rintro ⟨u', mid', left, u'', mid'', here, u, mid, right, more⟩
    exact ⟨u, mid, ⟨u', mid', left, u'', mid'', here, right⟩, more⟩

/-- Items with a word between them. -/
theorem Local.separated (some : w.toList ≠ []) (consumes : Consumes (do Grammar.spaced w; r))
    (item : Local true k (fun cs => F cs ∨ Goes (do Grammar.spaced w; r) cs) r)
    (ends : ∀ ⦃cs⦄, F cs → (Grammar.spaced w).Refuses cs) : Local true k F (Grammar.separated r w) := by
  have more : Local false k F (Rule.many (do Grammar.spaced w; r)) :=
    Local.many consumes ((item.spaced some).mono (Nat.le_succ k) fun _ => id) fun _ end' => (ends end').bind
  refine item.bind (fun _ => more.map) fun first cs as rest reads end' => ?_
  obtain ⟨as, mid, reads, last⟩ := reads_bind.1 reads
  obtain ⟨_, rfl⟩ := last.of_pure
  exact (Repeats.of_many consumes reads).follows end'

end DocTree.TypeExpr
