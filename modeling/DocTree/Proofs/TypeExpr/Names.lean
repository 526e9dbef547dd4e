import DocTree.Proofs.TypeExpr.Reads
import DocTree.Text.Part
import DocTree.TypeExpr.Grammar

/-!
# Names, and what follows them

A rule that repeats reads as far as it can, so that what it reads depends on what comes behind.

* `Fence stops cs` : behind blanks comes one of some characters, if anything; `afterSegment`, …, `closing` : which
  ones come behind the parts of a printed type, the tightest first;
* `reads_blanks`, `refuses_spaced`, `reads_spaced` : blanks, and words between blanks;
* `isIdentifier`, `Dotted` : identifiers, and such with points between them; `reads_identifier`, `reads_path`;
* `boundary` : where a word of identifier characters and an identifier can end that begin a text both.
-/

namespace DocTree

namespace Text

theorem intercalate_cons {α : Type} (separator first : List α) (others : List (List α)) :
    separator.intercalate (first :: others) = first ++ others.flatMap (separator ++ ·) := by
  induction others generalizing first with
  | nil => simp
  | cons second others ih =>
    rw [List.intercalate_cons_cons, ih, List.flatMap_cons]
    simp only [List.append_assoc]

/-- A text is its parts with the separator between them. -/
theorem intercalate_cut (separator : Char) (cs : List Char) : [separator].intercalate (cut separator cs) = cs := by
  induction cs with
  | nil => rfl
  | cons c cs ih =>
    rw [cut]
    split
    · rename_i here
      cases parts : cut separator cs with
      | nil =>
        rw [parts] at ih
        subst ih
        cases parts
      | cons part parts' =>
        rw [parts] at ih
        rw [here, List.intercalate_cons_cons, ih]
        rfl
    · split
      · rename_i parts
        rw [parts] at ih
        subst ih
        rfl
      · rename_i part parts' parts
        rw [parts] at ih
        cases parts' with
        | nil => simpa using ih
        | cons second parts' =>
          rw [List.intercalate_cons_cons] at ih ⊢
          rw [← ih]
          rfl

theorem cut_ne_nil (separator : Char) (cs : List Char) : cut separator cs ≠ [] := by
  cases cs with
  | nil => exact nofun
  | cons c cs =>
    rw [cut]
    split
    · exact nofun
    · split <;> exact nofun

end Text

namespace TypeExpr

open Rule Grammar Text

variable {cs rest stops stops' : List Char} {w : String}

/-- Whether all characters of a list have a property is found out by going through the list; going through all
characters there are takes too long. -/
instance decidableForallMem {p : Char → Prop} [DecidablePred p] (cs : List Char) : Decidable (∀ c ∈ cs, p c) :=
  List.decidableBAll p cs

/-! ## What follows -/

/-- Behind blanks comes one of some characters, if anything; blanks come only in front of `|` and `&`. -/
structure Fence (stops cs : List Char) : Prop where
  next : ∀ c ∈ (cs.dropWhile isBlank).head?, c ∈ stops
  blank : ∀ c ∈ cs.head?, isBlank c = true → ∀ d ∈ (cs.dropWhile isBlank).head?, d = '|' ∨ d = '&'

/-- What closes a printed type that has others around it. -/
def closing : List Char := [',', ']', '>', ')']

/-- What follows an intersection. -/
def afterPart : List Char := '|' :: closing

/-- What follows a type with its suffixes. -/
def afterOperand : List Char := '&' :: afterPart

/-- What follows a type without suffix. -/
def afterPrimary : List Char := '[' :: afterOperand

def afterName : List Char := '<' :: afterPrimary

/-- What follows an identifier. -/
def afterSegment : List Char := '.' :: afterName

theorem fence_nil (stops : List Char) : Fence stops [] := ⟨nofun, nofun⟩

theorem fence_cons {c : Char} (mem : c ∈ stops) (solid : isBlank c = false) (cs : List Char) : Fence stops (c :: cs) := by
  have here : (c :: cs).dropWhile isBlank = c :: cs := List.dropWhile_cons_of_neg (Bool.eq_false_iff.1 solid)
  refine ⟨fun d head => ?_, fun d head blank => ?_⟩
  · rw [here] at head
    exact Option.some.inj head ▸ mem
  · rw [← Option.some.inj head, solid] at blank
    cases blank

theorem fence_spaced {c : Char} (mem : c ∈ stops) (join : c = '|' ∨ c = '&') (cs : List Char) :
    Fence stops (' ' :: c :: cs) := by
  have solid : ¬isBlank c = true := by rcases join with rfl | rfl <;> decide
  have here : (' ' :: c :: cs).dropWhile isBlank = c :: cs := by
    rw [List.dropWhile_cons_of_pos (by decide), List.dropWhile_cons_of_neg solid]
  refine ⟨fun d head => ?_, fun _ _ _ d head => ?_⟩
  · rw [here] at head
    exact Option.some.inj head ▸ mem
  · rw [here] at head
    exact Option.some.inj head ▸ join

namespace Fence

theorem mono (h : Fence stops cs) (sub : stops ⊆ stops') : Fence stops' cs :=
  ⟨fun c head => sub (h.next c head), h.blank⟩

/-- What follows directly is one of the characters, or a blank. -/
theorem head (h : Fence stops cs) {c : Char} (head : c ∈ cs.head?) (solid : isBlank c = false) : c ∈ stops := by
  refine h.next c ?_
  cases cs with
  | nil => cases head
  | cons d cs =>
    obtain rfl : d = c := Option.some.inj head
    rw [List.dropWhile_cons_of_neg (Bool.eq_false_iff.1 solid)]
    rfl

end Fence

/-- A property that no blank has, nor any of the characters, is not there. -/
theorem Fence.not_head (h : Fence stops cs) {p : Char → Bool} (none : ∀ c ∈ stops, p c = false)
    (solid : ∀ c, p c = true → isBlank c = false) : ∀ c ∈ cs.head?, p c = false := by
  intro c head
  by_contra here
  have here : p c = true := by simpa using here
  have out := none c (h.head head (solid c here))
  rw [here] at out
  cases out

theorem code_of_isAlpha {c : Char} (h : c.isAlpha = true) :
    65 ≤ c.toNat ∧ c.toNat ≤ 90 ∨ 97 ≤ c.toNat ∧ c.toNat ≤ 122 := by
  delta Char.isAlpha Char.isUpper Char.isLower at h
  simpa [UInt32.le_iff_toNat_le] using h

theorem code_of_isDigit {c : Char} (h : c.isDigit = true) : 48 ≤ c.toNat ∧ c.toNat ≤ 57 := by
  simpa [Char.isDigit, UInt32.le_iff_toNat_le] using h

theorem isBlank_of_code {c : Char} (h : 33 ≤ c.toNat ∧ c.toNat ≤ 126) : isBlank c = false := by
  simp only [isBlank, Bool.or_eq_false_iff, Bool.and_eq_false_iff, decide_eq_false_iff_not, UInt32.le_iff_toNat_le,
    ← UInt32.toNat_inj]
  simp
  omega

theorem isBlank_of_isIdentifierChar {c : Char} (h : isIdentifierChar c = true) : isBlank c = false := by
  unfold isIdentifierChar Char.isAlphanum at h
  simp only [Bool.or_eq_true, decide_eq_true_eq] at h
  refine isBlank_of_code ?_
  rcases h with ((letter | digit) | rfl) | rfl
  · have := code_of_isAlpha letter
    omega
  · have := code_of_isDigit digit
    omega
  · decide
  · decide

theorem Fence.stop (h : Fence afterSegment cs) : ∀ c ∈ cs.head?, isIdentifierChar c = false :=
  h.not_head (by decide) fun _ => isBlank_of_isIdentifierChar

/-! ## Blanks and words -/

theorem reads_blanks (cs : List Char) : blanks.Reads cs () (cs.dropWhile isBlank) := by
  refine reads_named.2 (Reads.bind (a := cs.takeWhile isBlank) rfl (reads_pure ..))

theorem dropWhile_of_solid (solid : ∀ c ∈ cs.head?, isBlank c = false) : cs.dropWhile isBlank = cs := by
  cases cs with
  | nil => rfl
  | cons c cs => exact List.dropWhile_cons_of_neg (Bool.eq_false_iff.1 (solid c rfl))

theorem reads_blanks_solid (solid : ∀ c ∈ cs.head?, isBlank c = false) : blanks.Reads cs () cs := by
  have reads := reads_blanks cs
  rwa [dropWhile_of_solid solid] at reads

theorem reads_blanks_cons {c : Char} (solid : isBlank c = false) (cs : List Char) :
    blanks.Reads (c :: cs) () (c :: cs) :=
  reads_blanks_solid fun _ head => Option.some.inj head ▸ solid

theorem reads_someBlanks {c : Char} (blank : isBlank c = true) (cs : List Char) :
    someBlanks.Reads (c :: cs) () (cs.dropWhile isBlank) :=
  reads_named.2 ((reads_one blank).bind (Reads.bind (a := cs.takeWhile isBlank) rfl (reads_pure ..)))

theorem refuses_someBlanks (solid : ∀ c ∈ cs.head?, isBlank c = false) : someBlanks.Refuses cs :=
  refuses_named.2 (refuses_one solid).bind

theorem refuses_word_head {d : Char} {ds : List Char} (spelled : w.toList = d :: ds) (other : d ∉ cs.head?) :
    (word w).Refuses cs := by
  refine refuses_word fun ⟨more, eq⟩ => other ?_
  rw [← eq, spelled]
  rfl

theorem refuses_spaced {d : Char} {ds : List Char} (spelled : w.toList = d :: ds) (h : Fence stops cs)
    (out : d ∉ stops) : (spaced w).Refuses cs := by
  refine (reads_blanks cs).bind_refuses (refuses_word_head spelled fun head => out ?_).bind
  exact h.next d head

theorem reads_blanks_run {run : List Char} (all : ∀ c ∈ run, isBlank c = true)
    (solid : ∀ c ∈ rest.head?, isBlank c = false) : blanks.Reads (run ++ rest) () rest := by
  have reads := reads_blanks (run ++ rest)
  rwa [List.dropWhile_append_of_pos all, dropWhile_of_solid solid] at reads

theorem reads_spaced {before after : List Char} {d : Char} {ds : List Char} (spelled : w.toList = d :: ds)
    (word : isBlank d = false) (left : ∀ c ∈ before, isBlank c = true) (right : ∀ c ∈ after, isBlank c = true)
    (solid : ∀ c ∈ rest.head?, isBlank c = false) :
    (spaced w).Reads (before ++ (w.toList ++ (after ++ rest))) () rest := by
  have first : blanks.Reads (before ++ (w.toList ++ (after ++ rest))) () (w.toList ++ (after ++ rest)) := by
    refine reads_blanks_run left fun c head => ?_
    rw [spelled] at head
    exact Option.some.inj head ▸ word
  exact first.bind ((reads_word w (after ++ rest)).bind (reads_blanks_run right solid))

/-! ## Identifiers and names -/

/-- Whether a text is an identifier. -/
def isIdentifier : List Char → Bool
  | [] => false
  | c :: cs => isIdentifierStart c && cs.all isIdentifierChar

/-- Identifiers with points between them. -/
def Dotted (name : String) : Prop := ∀ part ∈ parts '.' name, isIdentifier part.toList = true

instance (name : String) : Decidable (Dotted name) := inferInstanceAs (Decidable (∀ _ ∈ _, _))

theorem isIdentifierChar_of_start {c : Char} (h : isIdentifierStart c = true) : isIdentifierChar c = true := by
  unfold isIdentifierStart at h
  unfold isIdentifierChar Char.isAlphanum
  simp only [Bool.or_eq_true] at h ⊢
  tauto

/-- An identifier begins with one of some characters, and has identifier characters only. -/
theorem exists_of_isIdentifier (h : isIdentifier cs = true) :
    ∃ c more, cs = c :: more ∧ isIdentifierStart c = true ∧ ∀ d ∈ cs, isIdentifierChar d = true := by
  cases cs with
  | nil => cases h
  | cons c more =>
    obtain ⟨start, all⟩ := Bool.and_eq_true_iff.1 h
    refine ⟨c, more, rfl, start, fun d mem => ?_⟩
    rcases List.mem_cons.1 mem with rfl | mem
    · exact isIdentifierChar_of_start start
    · exact List.all_eq_true.1 all d mem

theorem reads_identifier {seg : List Char} (h : isIdentifier seg = true)
    (stop : ∀ c ∈ rest.head?, isIdentifierChar c = false) : identifier.Reads (seg ++ rest) seg rest := by
  obtain ⟨c, more, rfl, start, all⟩ := exists_of_isIdentifier h
  have tail : (run isIdentifierChar).Reads (more ++ rest) more rest :=
    reads_run (fun d mem => all d (List.mem_cons_of_mem c mem)) stop
  exact reads_named.2 ((reads_one start).bind (tail.bind (reads_pure ..)))

theorem refuses_identifier (h : ∀ c ∈ cs.head?, isIdentifierStart c = false) : identifier.Refuses cs :=
  refuses_named.2 (refuses_one h).bind

/-- If a word of identifier characters and an identifier begin a text both, the word ends inside the identifier or
with it. -/
theorem boundary {word seg more : List Char} (chars : ∀ c ∈ word, isIdentifierChar c = true)
    (inner : ∀ c ∈ seg, isIdentifierChar c = true) (stop : ∀ c ∈ rest.head?, isIdentifierChar c = false)
    (eq : word ++ more = seg ++ rest) : (∃ c ∈ more.head?, isIdentifierChar c = true) ∨ (seg = word ∧ more = rest) := by
  rcases List.append_eq_append_iff.1 eq with ⟨as, here, behind⟩ | ⟨bs, here, behind⟩
  · cases as with
    | nil => exact Or.inr ⟨by simpa using here, by simpa using behind⟩
    | cons a as =>
      refine Or.inl ⟨a, by rw [behind]; rfl, inner a ?_⟩
      rw [here]
      exact List.mem_append_right _ List.mem_cons_self
  · cases bs with
    | nil => exact Or.inr ⟨by simpa using here.symm, by simpa using behind.symm⟩
    | cons b bs =>
      have ident : isIdentifierChar b = true := chars b (here ▸ List.mem_append_right _ List.mem_cons_self)
      have other := stop b (by rw [behind]; rfl)
      rw [ident] at other
      cases other

theorem Dotted.segments {name : String} (h : Dotted name) :
    ∃ seg segs, cut '.' name.toList = seg :: segs ∧ isIdentifier seg = true ∧ (∀ s ∈ segs, isIdentifier s = true) ∧
      name.toList = ['.'].intercalate (seg :: segs) := by
  have all : ∀ s ∈ cut '.' name.toList, isIdentifier s = true := by
    intro s mem
    have part := h (String.ofList s) (List.mem_map_of_mem mem)
    rwa [String.toList_ofList] at part
  have whole := intercalate_cut '.' name.toList
  cases segs : cut '.' name.toList with
  | nil => exact absurd segs (cut_ne_nil '.' _)
  | cons seg segs' =>
    rw [segs] at all whole
    exact ⟨seg, segs', rfl, all seg List.mem_cons_self, fun s mem => all s (List.mem_cons_of_mem seg mem), whole.symm⟩

/-- A name begins with an identifier, behind which comes a point, or what comes behind the name. -/
theorem Dotted.begins {name : String} (h : Dotted name) (fence : Fence afterName rest) :
    ∃ seg more, (parts '.' name).head? = some (String.ofList seg) ∧ isIdentifier seg = true ∧
      name.toList ++ rest = seg ++ more ∧ Fence afterSegment more := by
  obtain ⟨seg, segs, eq, first, _, spelled⟩ := h.segments
  have head : (parts '.' name).head? = some (String.ofList seg) := by
    rw [parts, eq]
    rfl
  cases segs with
  | nil =>
    refine ⟨seg, rest, head, first, ?_, fence.mono (List.subset_cons_self ..)⟩
    rw [spelled, List.intercalate_singleton]
  | cons second segs =>
    refine ⟨seg, '.' :: (['.'].intercalate (second :: segs) ++ rest), head, first, ?_, ?_⟩
    · rw [spelled, List.intercalate_cons_cons]
      simp
    · exact fence_cons List.mem_cons_self (by decide) _

/-- A dotted name is read as it is. -/
theorem reads_path {name : String} (h : Dotted name) (fence : Fence afterName rest) :
    path.Reads (name.toList ++ rest) name rest := by
  obtain ⟨seg, segs, _, first, others, spelled⟩ := h.segments
  have stop : ∀ (segs : List (List Char)), ∀ c ∈ (segs.flatMap ('.' :: ·) ++ rest).head?, isIdentifierChar c = false := by
    intro segs
    cases segs with
    | nil => exact (fence.mono (List.subset_cons_self ..)).stop
    | cons _ _ => exact fun c head => Option.some.inj head ▸ rfl
  have more : ∀ (segs : List (List Char)), (∀ s ∈ segs, isIdentifier s = true) →
      (many do word "."; identifier).Reads (segs.flatMap ('.' :: ·) ++ rest) segs rest := by
    intro segs others
    refine Repeats.many ?_
    induction segs with
    | nil =>
      have none : '.' ∉ rest.head? := fun head => absurd (fence.head head (by decide)) (by decide)
      exact .stop (refuses_word_head (w := ".") rfl none).bind
    | cons s segs ih =>
      have here := reads_identifier (others s List.mem_cons_self) (stop segs)
      refine .step ?_ ?_ (ih fun s mem => others s (List.mem_cons_of_mem _ mem))
      · rw [List.flatMap_cons, List.append_assoc]
        exact (reads_word "." _).bind here
      · simp only [List.flatMap_cons, List.length_append, List.length_cons]
        omega
  have meant : ".".intercalate ((seg :: segs).map String.ofList) = name := by
    rw [← String.toList_inj, String.toList_intercalate, List.map_map, spelled]
    have same : String.toList ∘ String.ofList = id := funext fun _ => String.toList_ofList
    rw [same, List.map_id]
    rfl
  rw [spelled, intercalate_cons, List.append_assoc]
  refine reads_named.2 ((reads_identifier first (stop segs)).bind ((more segs others).bind ?_))
  rw [meant]
  exact reads_pure ..

end TypeExpr

end DocTree
