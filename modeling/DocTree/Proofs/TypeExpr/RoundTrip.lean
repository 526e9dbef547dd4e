import DocTree.Proofs.TypeExpr.Joined
import DocTree.Ty.Printer
import DocTree.TypeExpr.Build
import Mathlib.Data.List.Forall2

/-!
# Printed types are read back

* `Ty.Expressible` : the types without inline declarations whose texts are type expressions for them;
  `Ty.isShort` : no number in a type has too many digits to be read;
* `Written isFunction t text e` : the type prints as a text, which is read as an expression that denotes the type;
  `written_name`, `written_union`, … : one lemma for each kind of type; `exists_written` : all of them together;
* `ReadsBack isFunction t` : the type is read back from its text; `readsBack_iff_isShort` : it is, if it is short.
-/

namespace DocTree

open TypeExpr TypeExpr.Rule TypeExpr.Grammar

namespace Ty

/-- Whether no whole number in a type has more digits than whole numbers are read from. -/
def isShort (t : Ty) : Bool := t.nested.all fun
  | literal (.int n) => decide ((Decimal.digitsOf n.natAbs).length ≤ Decimal.digitLimit)
  | _ => true

def isUnion : Ty → Bool
  | union _ => true
  | _ => false

/-- Whether a type has a word in front. -/
def isOperator : Ty → Bool
  | operator .. => true
  | _ => false

/-- The types whose texts are type expressions for them. A text has no escapes, and parentheses only where an array puts
them around a combination: strings that need the former, and types that need the latter elsewhere, are left out, and so
are names that stand for something else when they stand alone. -/
inductive Expressible : Ty → Prop
  | intrinsic {name : String} : name ∈ intrinsicNames → name ≠ "null" → Expressible (.intrinsic (.str name))
  | string {text : String} : '"' ∉ text.toList → '\\' ∉ text.toList → Expressible (.literal (.str text))
  | int (n : Int) : Expressible (.literal (.int n))
  | bool (b : Bool) : Expressible (.literal (.bool b))
  | null : Expressible (.literal .null)
  | reference {name : String} {args : List Ty} : Dotted name →
      (∀ first ∈ (Text.parts '.' name).head?, first ∉ keywords) → (args = [] → name ∉ intrinsicNames) →
      (∀ t ∈ args, Expressible t) → Expressible (.reference (.str name) .external args .null)
  | query {name : String} : Dotted name → Expressible (.query (.outside name))
  | tuple {elements : List Ty} : (∀ t ∈ elements, Expressible t) → Expressible (.tuple elements)
  | array {element : Ty} : Expressible element → element.isOperator = false → Expressible (.array element)
  | union {types : List Ty} : 2 ≤ types.length → (∀ t ∈ types, Expressible t) → (∀ t ∈ types, t.isUnion = false) →
      Expressible (.union types)
  | intersection {types : List Ty} : 2 ≤ types.length → (∀ t ∈ types, Expressible t) →
      (∀ t ∈ types, t.isCombination = false) → Expressible (.intersection types)
  | operator {word : String} {target : Ty} : word ∈ operators → Expressible target → target.isCombination = false →
      Expressible (.operator (.str word) target)

theorem isShort_eq (t : Ty) : t.isShort = ((match t with
    | literal (.int n) => decide ((Decimal.digitsOf n.natAbs).length ≤ Decimal.digitLimit)
    | _ => true) && t.children.all isShort) := by
  unfold isShort
  rw [nested_eq, List.all_cons, List.all_flatMap]

end Ty

namespace TypeExpr

variable {isFunction : NodeId → Bool} {t : Ty} {cs text rest : List Char} {e : Expr}

/-! ## Types that are built -/

/-- A result, unless there is a number with too many digits in it. -/
def unlessLong {α : Type} (short : Bool) (a : α) : Building α := if short then pure a else throw .longNumber

theorem unlessLong_bind {α β : Type} (short : Bool) (a : α) (f : α → Building β) :
    unlessLong short a >>= f = if short then f a else throw .longNumber := by
  cases short
  · rfl
  · rfl

theorem unlessLong_map {α β : Type} (short : Bool) (a : α) (f : α → β) :
    (do return f (← unlessLong short a)) = unlessLong short (f a) := by
  cases short
  · rfl
  · rfl

theorem build_name (path : String) (args : List Expr) : build outsideBuilder (.name path args) =
    (do
      let args ← buildAll outsideBuilder args
      if args.isEmpty && intrinsicNames.contains path then return .intrinsic (.str path)
      else return .reference (.str path) .external args .null) := rfl

/-! ## Types that are written -/

theorem some_ofList {s : String} (h : s.toList = cs) : some s = some (String.ofList cs) := by
  rw [← h, String.ofList_toList]

/-- A type has a text that is read as an expression which denotes the type: by itself, and wherever it stands without
parentheses inside other types. -/
structure Written (isFunction : NodeId → Bool) (t : Ty) (text : List Char) (e : Expr) : Prop where
  rendered : t.render isFunction = some (String.ofList text)
  built : build outsideBuilder e = unlessLong t.isShort t
  begins : Begins text
  whole : ReadAs union closing text e
  part : t.isUnion = false → ReadAs intersection afterPart text e
  operand : t.isCombination = false → ReadAs suffixed afterOperand text e
  suffixes : t.isCombination = false → t.isOperator = false → ∀ n,
    ReadAs suffixed afterOperand (text ++ brackets n) (stacked n e)

theorem ReadAs.part (h : ReadAs suffixed afterOperand cs e) (begins : Begins cs) : ReadAs intersection afterPart cs e := by
  have alone : [(cs, e)] ≠ [] := nofun
  have reads := reads_intersection alone fun i mem => List.mem_singleton.1 mem ▸ ⟨begins, h⟩
  simpa [combine] using reads

theorem ReadAs.whole (h : ReadAs intersection afterPart cs e) (begins : Begins cs) : ReadAs union closing cs e := by
  have alone : [(cs, e)] ≠ [] := nofun
  have reads := reads_union alone fun i mem => List.mem_singleton.1 mem ▸ ⟨begins, h⟩
  simpa [combine] using reads

theorem Written.of_suffixes (rendered : t.render isFunction = some (String.ofList text))
    (built : build outsideBuilder e = unlessLong t.isShort t) (begins : Begins text)
    (h : ∀ n, ReadAs suffixed afterOperand (text ++ brackets n) (stacked n e)) : Written isFunction t text e := by
  have operand : ReadAs suffixed afterOperand text e := by simpa [brackets, stacked] using h 0
  exact ⟨rendered, built, begins, (operand.part begins).whole begins, fun _ => operand.part begins, fun _ => operand,
    fun _ _ => h⟩

theorem Written.of_primary (rendered : t.render isFunction = some (String.ofList text))
    (built : build outsideBuilder e = unlessLong t.isShort t) (begins : Begins text)
    (h : ReadAs primary afterPrimary text e) : Written isFunction t text e :=
  .of_suffixes rendered built begins (reads_stacked h)

theorem Written.render_map (h : Written isFunction t text e) (f : String → String)
    (shape : (f (String.ofList text)).toList = cs) : (do return f (← t.render isFunction)) = some (String.ofList cs) := by
  rw [h.rendered]
  exact some_ofList shape

theorem Written.build_map (h : Written isFunction t text e) {f : Ty → Ty} (short : (f t).isShort = t.isShort) :
    (do return f (← build outsideBuilder e)) = unlessLong (f t).isShort (f t) := by
  rw [h.built, unlessLong_map, short]

/-! ### Lists -/

/-- Types with their texts and what these are read as. -/
abbrev WrittenAll (isFunction : NodeId → Bool) : List Ty → List (List Char × Expr) → Prop :=
  List.Forall₂ fun t i => Written isFunction t i.1 i.2

variable {ts : List Ty} {items : List (List Char × Expr)}

theorem exists_writtenAll (h : ∀ t ∈ ts, ∃ text e, Written isFunction t text e) :
    ∃ items, WrittenAll isFunction ts items := by
  induction ts with
  | nil => exact ⟨[], .nil⟩
  | cons t ts ih =>
    obtain ⟨text, e, here⟩ := h t List.mem_cons_self
    obtain ⟨items, others⟩ := ih fun t' mem => h t' (List.mem_cons_of_mem t mem)
    exact ⟨(text, e) :: items, .cons here others⟩

theorem intercalate_ofList (w : String) (items : List (List Char × Expr)) :
    w.intercalate (items.map fun i => String.ofList i.1) = String.ofList (w.toList.intercalate (items.map Prod.fst)) := by
  rw [← String.toList_inj, String.toList_intercalate, String.toList_ofList, List.map_map]
  congr 2
  exact funext fun i => String.toList_ofList

namespace WrittenAll

theorem renderAll (h : WrittenAll isFunction ts items) :
    Ty.renderAll isFunction ts = some (items.map fun i => String.ofList i.1) := by
  induction h with
  | nil => rfl
  | cons here _ ih =>
    rw [Ty.renderAll, here.rendered, ih]
    rfl

theorem buildAll (h : WrittenAll isFunction ts items) :
    buildAll outsideBuilder (items.map Prod.snd) = unlessLong (ts.all Ty.isShort) ts := by
  induction h with
  | nil => rfl
  | @cons t i ts items here _ ih =>
    rw [List.map_cons, TypeExpr.buildAll, here.built, ih, List.all_cons]
    cases t.isShort
    · rfl
    · cases ts.all Ty.isShort
      · rfl
      · rfl

theorem render_map (h : WrittenAll isFunction ts items) {w : String} (f : String → String)
    (shape : (f (String.ofList (w.toList.intercalate (items.map Prod.fst)))).toList = text) :
    (do return f (w.intercalate (← Ty.renderAll isFunction ts))) = some (String.ofList text) := by
  rw [h.renderAll, ← shape, ← intercalate_ofList]
  exact some_ofList rfl

theorem build_map (h : WrittenAll isFunction ts items) {f : List Ty → Ty} (short : (f ts).isShort = ts.all Ty.isShort) :
    (do return f (← TypeExpr.buildAll outsideBuilder (items.map Prod.snd))) = unlessLong (f ts).isShort (f ts) := by
  rw [h.buildAll, unlessLong_map, short]

theorem exists_type (h : WrittenAll isFunction ts items) : ∀ i ∈ items, ∃ t ∈ ts, Written isFunction t i.1 i.2 := by
  induction h with
  | nil => exact List.forall_mem_nil _
  | @cons t i ts items here _ ih =>
    rintro i' mem
    rcases List.mem_cons.1 mem with rfl | mem
    · exact ⟨t, List.mem_cons_self, here⟩
    · obtain ⟨t', mem', written⟩ := ih i' mem
      exact ⟨t', List.mem_cons_of_mem t mem', written⟩

theorem listed (h : WrittenAll isFunction ts items) : Listed items := by
  intro i mem
  obtain ⟨_, _, written⟩ := h.exists_type i mem
  exact ⟨written.begins, written.whole⟩

theorem ne_nil (h : WrittenAll isFunction ts items) (some : ts ≠ []) : items ≠ [] := by
  rintro rfl
  cases h
  exact some rfl

theorem combine_eq (h : WrittenAll isFunction ts items) (several : 2 ≤ ts.length) (f : List Expr → Expr) :
    items ≠ [] ∧ combine f (items.map Prod.snd) = f (items.map Prod.snd) := by
  rw [h.length_eq] at several
  match items with
  | [] => exact absurd several (Nat.not_succ_le_zero 1)
  | [_] => exact absurd several (Nat.not_succ_le_self 1)
  | _ :: _ :: _ => exact ⟨nofun, rfl⟩

end WrittenAll

/-! ### Beginnings -/

/-- What begins like a type still does so if something follows that may follow a name. -/
theorem Begins.append (h : Begins cs) {more : List Char} (follows : ∀ rest, Fence afterName (more ++ rest)) :
    Begins (cs ++ more) where
  opening := by
    obtain ⟨c, more', rfl, opening⟩ := h.opening
    exact ⟨c, more' ++ more, rfl, opening⟩
  untyped := fun l rest _ => by
    rw [List.append_assoc]
    exact h.untyped l (follows rest)

theorem begins_toString (n : Int) : Begins (toString n).toList := by
  obtain ⟨c, more, eq, sign | digit⟩ := exists_toString n
  · rw [eq, sign]
    exact begins_of_opening (by decide) (by decide)
  · rw [eq]
    refine begins_of_opening (by simp [isOpening, digit]) ?_
    by_contra start
    have letter := isDigit_of_start (Bool.not_eq_false _ ▸ start)
    rw [letter] at digit
    cases digit

theorem Dotted.begins_type {name : String} (h : Dotted name) : Begins name.toList :=
  begins_of_identifier fun fence => by
    obtain ⟨seg, more, _, ident, eq, fence⟩ := h.begins fence
    exact ⟨seg, more, ident, eq, fence⟩

theorem begins_joined {w : String} {join : Char} (spelled : w.toList = [' ', join, ' '])
    (joins : join = '|' ∨ join = '&') (some : items ≠ []) (begins : ∀ i ∈ items, Begins i.1) :
    Begins (w.toList.intercalate (items.map Prod.fst)) := by
  cases items with
  | nil => exact absurd rfl some
  | cons first others =>
    have here : Begins first.1 := begins first List.mem_cons_self
    rw [List.map_cons, Text.intercalate_cons]
    cases others with
    | nil => simpa using here
    | cons second others =>
      refine here.append fun rest => ?_
      rw [List.map_cons, List.flatMap_cons, spelled]
      exact fence_spaced (by rcases joins with rfl | rfl <;> decide) joins _

/-! ## Each kind of type -/

theorem written_string {s : String} (quotes : '"' ∉ s.toList) (slashes : '\\' ∉ s.toList) :
    Written isFunction (.literal (.str s)) ('"' :: (s.toList ++ ['"'])) (.literal (.str s)) := by
  refine .of_primary ?_ rfl (begins_of_opening (by decide) (by decide)) (reads_string quotes slashes)
  exact some_ofList (by simp [Ty.literalText])

theorem written_int (n : Int) : Written isFunction (.literal (.int n)) (toString n).toList (integer n) := by
  refine .of_primary (some_ofList rfl) ?_ (begins_toString n) (reads_int n)
  rw [Ty.isShort_eq, integer]
  by_cases short : (Decimal.digitsOf n.natAbs).length ≤ Decimal.digitLimit
  · simp only [short, decide_true, Ty.children, List.all_nil, Bool.and_self, if_true]
    rfl
  · simp only [short, decide_false, Bool.false_and, if_false]
    rfl

theorem written_keyword {w : String} {v : Value} (h : (w, v) ∈ meanings) :
    Written isFunction (.literal v) w.toList (.literal v) := by
  have all : ∀ m ∈ meanings, isIdentifier m.1.toList = true ∧ Ty.literalText m.2 = m.1 ∧
      (Ty.literal m.2).isShort = true := by decide
  obtain ⟨ident, rendered, short⟩ := all (w, v) h
  refine .of_primary ?_ ?_ ?_ (reads_keyword h)
  · exact some_ofList (congrArg String.toList rendered)
  · rw [short]
    rfl
  · exact begins_of_identifier fun {rest} fence => ⟨w.toList, rest, ident, rfl, fence.mono (List.subset_cons_self ..)⟩

theorem written_intrinsic {name : String} (mem : name ∈ intrinsicNames) (other : name ≠ "null") :
    Written isFunction (.intrinsic (.str name)) name.toList (.name name []) := by
  have all : ∀ name ∈ intrinsicNames, name ≠ "null" →
      Dotted name ∧ ∀ first ∈ (Text.parts '.' name).head?, first ∉ keywords := by decide
  obtain ⟨dotted, plain⟩ := all name mem other
  refine .of_primary (some_ofList rfl) ?_ dotted.begins_type (reads_name dotted plain)
  rw [build_name, buildAll, pure_bind, List.isEmpty_nil, Bool.true_and, if_pos (List.contains_iff_mem.2 mem)]
  rfl

theorem written_name {name : String} (dotted : Dotted name)
    (plain : ∀ first ∈ (Text.parts '.' name).head?, first ∉ keywords) (other : name ∉ intrinsicNames) :
    Written isFunction (.outside name) name.toList (.name name []) := by
  refine .of_primary (some_ofList rfl) ?_ dotted.begins_type (reads_name dotted plain)
  rw [build_name, buildAll, pure_bind, List.isEmpty_nil, Bool.true_and, if_neg (mt List.contains_iff_mem.1 other)]
  rfl

theorem written_arguments {name : String} (dotted : Dotted name)
    (plain : ∀ first ∈ (Text.parts '.' name).head?, first ∉ keywords) (h : WrittenAll isFunction ts items)
    (some : ts ≠ []) : Written isFunction (.reference (.str name) .external ts .null)
      (name.toList ++ '<' :: (listText items ++ ['>'])) (.name name (items.map Prod.snd)) := by
  refine .of_primary ?_ ?_ ?_ (reads_arguments dotted plain h.listed (h.ne_nil some))
  · obtain ⟨t, ts, rfl⟩ := List.exists_cons_of_ne_nil some
    exact h.render_map (fun list => name ++ "<" ++ list ++ ">") (by simp [listText])
  · rw [Ty.isShort_eq, build_name, h.buildAll, unlessLong_bind, Bool.true_and, List.isEmpty_eq_false_iff.2 some]
    rfl
  · exact dotted.begins_type.append fun rest => fence_cons List.mem_cons_self (by decide) _

theorem written_query {name : String} (dotted : Dotted name) : Written isFunction (.query (.outside name))
    ("typeof".toList ++ ' ' :: name.toList) (.query name) := by
  refine .of_primary ?_ rfl ?_ (reads_query dotted)
  · exact some_ofList (by simp)
  · exact begins_of_word (by decide) dotted.begins_type.opening

theorem written_tuple (h : WrittenAll isFunction ts items) :
    Written isFunction (.tuple ts) ('[' :: (listText items ++ [']'])) (.tuple (items.map Prod.snd)) := by
  refine .of_primary ?_ ?_ (begins_of_opening (by decide) (by decide)) (reads_tuple h.listed)
  · exact h.render_map (fun list => "[" ++ list ++ "]") (by simp [listText])
  · exact h.build_map ((Ty.isShort_eq _).trans (Bool.true_and _))

theorem written_array (h : Written isFunction t text e) (operator : t.isOperator = false) :
    Written isFunction (.array t) ((if t.isCombination then '(' :: (text ++ [')']) else text) ++ brackets 1)
      (.array e) := by
  refine .of_suffixes ?_ (h.build_map ((Ty.isShort_eq _).trans (by simp [Ty.children]))) ?_ fun n => ?_
  · refine h.render_map (fun text => if t.isCombination then "(" ++ text ++ ")[]" else text ++ "[]") ?_
    cases t.isCombination
    · simp [brackets]
    · simp [brackets]
  · cases t.isCombination
    · exact h.begins.append fun rest => fence_cons (by decide) (by decide) _
    · exact begins_of_opening (by decide) (by decide)
  · rw [List.append_assoc]
    cases combination : t.isCombination
    · exact h.suffixes combination operator (n + 1)
    · exact reads_stacked (reads_parenthesized h.whole h.begins) (n + 1)

theorem written_operator {w : String} (word : w ∈ operators) (h : Written isFunction t text e)
    (combination : t.isCombination = false) :
    Written isFunction (.operator (.str w) t) (w.toList ++ ' ' :: text) (.operator w e) := by
  have first : ∀ w ∈ operators, isIdentifier w.toList = true := by decide
  have begins : Begins (w.toList ++ ' ' :: text) := begins_of_word (first w word) h.begins.opening
  have operand : ReadAs suffixed afterOperand (w.toList ++ ' ' :: text) (.operator w e) :=
    reads_unstacked (reads_operator word (h.operand combination) h.begins)
  refine ⟨?_, ?_, begins, (operand.part begins).whole begins, fun _ => operand.part begins, fun _ => operand, nofun⟩
  · exact h.render_map (fun text => w ++ " " ++ text) (by simp)
  · exact h.build_map ((Ty.isShort_eq _).trans (by simp [Ty.children]))

theorem written_intersection (h : WrittenAll isFunction ts items) (several : 2 ≤ ts.length)
    (combination : ∀ t ∈ ts, t.isCombination = false) : Written isFunction (.intersection ts)
      (" & ".toList.intercalate (items.map Prod.fst)) (.intersection (items.map Prod.snd)) := by
  obtain ⟨some, combined⟩ := h.combine_eq several .intersection
  have parts : ∀ i ∈ items, Begins i.1 ∧ ReadAs suffixed afterOperand i.1 i.2 := by
    intro i mem
    obtain ⟨t, mem, written⟩ := h.exists_type i mem
    exact ⟨written.begins, written.operand (combination t mem)⟩
  have begins := begins_joined (w := " & ") rfl (Or.inr rfl) some fun i mem => (parts i mem).1
  have part := reads_intersection some parts
  rw [combined] at part
  refine ⟨?_, ?_, begins, part.whole begins, fun _ => part, nofun, nofun⟩
  · exact h.render_map id (String.toList_ofList ..)
  · exact h.build_map ((Ty.isShort_eq _).trans (Bool.true_and _))

theorem written_union (h : WrittenAll isFunction ts items) (several : 2 ≤ ts.length)
    (unions : ∀ t ∈ ts, t.isUnion = false) : Written isFunction (.union ts)
      (" | ".toList.intercalate (items.map Prod.fst)) (.union (items.map Prod.snd)) := by
  obtain ⟨some, combined⟩ := h.combine_eq several .union
  have parts : ∀ i ∈ items, Begins i.1 ∧ ReadAs intersection afterPart i.1 i.2 := by
    intro i mem
    obtain ⟨t, mem, written⟩ := h.exists_type i mem
    exact ⟨written.begins, written.part (unions t mem)⟩
  have begins := begins_joined (w := " | ") rfl (Or.inl rfl) some fun i mem => (parts i mem).1
  have whole := reads_union some parts
  rw [combined] at whole
  refine ⟨?_, ?_, begins, whole, nofun, nofun, nofun⟩
  · exact h.render_map id (String.toList_ofList ..)
  · exact h.build_map ((Ty.isShort_eq _).trans (Bool.true_and _))

/-! ## All types -/

/-- Every expressible type is written by an expression that denotes it. -/
theorem exists_written (isFunction : NodeId → Bool) (h : t.Expressible) :
    ∃ text e, Written isFunction t text e := by
  induction h with
  | intrinsic mem other => exact ⟨_, _, written_intrinsic mem other⟩
  | string quotes slashes => exact ⟨_, _, written_string quotes slashes⟩
  | int n => exact ⟨_, _, written_int n⟩
  | bool b =>
    cases b with
    | true => exact ⟨_, _, written_keyword (w := "true") (by simp [meanings])⟩
    | false => exact ⟨_, _, written_keyword (w := "false") (by simp [meanings])⟩
  | null => exact ⟨_, _, written_keyword (w := "null") (by simp [meanings])⟩
  | @reference name args dotted plain other _ ih =>
    by_cases none : args = []
    · subst none
      exact ⟨_, _, written_name dotted plain (other rfl)⟩
    · obtain ⟨items, all⟩ := exists_writtenAll ih
      exact ⟨_, _, written_arguments dotted plain all none⟩
  | query dotted => exact ⟨_, _, written_query dotted⟩
  | tuple _ ih =>
    obtain ⟨items, all⟩ := exists_writtenAll ih
    exact ⟨_, _, written_tuple all⟩
  | array _ operator ih =>
    obtain ⟨text, e, written⟩ := ih
    exact ⟨_, _, written_array written operator⟩
  | union several _ unions ih =>
    obtain ⟨items, all⟩ := exists_writtenAll ih
    exact ⟨_, _, written_union all several unions⟩
  | intersection several _ combination ih =>
    obtain ⟨items, all⟩ := exists_writtenAll ih
    exact ⟨_, _, written_intersection all several combination⟩
  | operator word _ combination ih =>
    obtain ⟨text, e, written⟩ := ih
    exact ⟨_, _, written_operator word written combination⟩

/-- What is read as a union is a type expression. -/
theorem ReadAs.parse (h : ReadAs union closing cs e) (begins : Begins cs) : parse (String.ofList cs) = .ok e := by
  have solid : ∀ c ∈ cs.head?, Text.isBlank c = false := by
    have here := begins.solid []
    rwa [List.append_nil] at here
  have whole : (level (cs.length + 1)).union.Reads cs e [] := by
    have here : (level (cs.length + 1)).union.Reads (cs ++ []) e [] := h (Nat.le_refl _) (fence_nil _)
    rwa [List.append_nil] at here
  have read : (type (cs.length + 1)).Reads cs e [] :=
    reads_named.2 ((reads_blanks_solid solid).bind (whole.bind ((reads_blanks []).bind (reads_pure ..))))
  unfold Reads at read
  unfold TypeExpr.parse
  simp only [String.toList_ofList, read]

/-- The text of a type is read as an expression that denotes the type, and adds no declarations. -/
def ReadsBack (isFunction : NodeId → Bool) (t : Ty) : Prop := ∃ text e, t.render isFunction = some text ∧
  parse text = .ok e ∧ ∀ nodes, (build outsideBuilder e).run nodes = .ok t nodes

theorem Written.readsBack_iff (h : Written isFunction t text e) : ReadsBack isFunction t ↔ t.isShort = true := by
  have read : parse (String.ofList text) = .ok e := h.whole.parse h.begins
  constructor
  · rintro ⟨text', e', rendered, read', built⟩
    obtain rfl : String.ofList text = text' := Option.some.inj (h.rendered.symm.trans rendered)
    obtain rfl : e = e' := Except.ok.inj (read.symm.trans read')
    rw [h.built] at built
    by_contra long
    rw [Bool.eq_false_iff.2 long] at built
    cases built #[]
  · intro short
    refine ⟨_, e, h.rendered, read, fun nodes => ?_⟩
    rw [h.built, short]
    rfl

/-- What is printed is read back, if no number in it has too many digits. -/
theorem readsBack_iff_isShort (isFunction : NodeId → Bool) (h : t.Expressible) :
    ReadsBack isFunction t ↔ t.isShort = true := by
  obtain ⟨text, e, written⟩ := exists_written isFunction h
  exact written.readsBack_iff

/-- Parts of every kind, among them a name that is a word in front of types elsewhere. -/
def assorted : Ty :=
  .array (.array (.union
    [.outside "keyof",
      .intersection
        [.reference (.str "Map") .external
            [.tuple [.literal (.bool true), .literal (.int (-7))], .literal (.str "a b")] .null,
          .operator (.str "readonly") (.array (.query (.outside "app.box")))]]))

theorem readsBack_iff_isShort_assorted : assorted.Expressible ∧
    assorted.render (fun _ => false) = some "(keyof | Map<[true, -7], \"a b\"> & readonly typeof app.box[])[][]" ∧
    ReadsBack (fun _ => false) assorted := by
  have name : (Ty.outside "keyof").Expressible := .reference (by decide) (by decide) (by decide) nofun
  have pair : (Ty.tuple [.literal (.bool true), .literal (.int (-7))]).Expressible :=
    .tuple (List.forall_mem_cons.2 ⟨.bool true, List.forall_mem_singleton.2 (.int (-7))⟩)
  have map : (Ty.reference (.str "Map") .external
      [.tuple [.literal (.bool true), .literal (.int (-7))], .literal (.str "a b")] .null).Expressible :=
    .reference (by decide) (by decide) nofun
      (List.forall_mem_cons.2 ⟨pair, List.forall_mem_singleton.2 (.string (by decide) (by decide))⟩)
  have word : (Ty.operator (.str "readonly") (.array (.query (.outside "app.box")))).Expressible :=
    .operator (by decide) (.array (.query (by decide)) rfl) rfl
  have expressible : assorted.Expressible := by
    refine .array (.array (.union (by decide) (List.forall_mem_cons.2 ⟨name, List.forall_mem_singleton.2 ?_⟩) ?_) rfl) rfl
    · exact .intersection (by decide) (List.forall_mem_cons.2 ⟨map, List.forall_mem_singleton.2 word⟩) (by decide)
    · decide
  exact ⟨expressible, by decide, (readsBack_iff_isShort _ expressible).2 (by decide)⟩

/-- A whole number with one digit more than whole numbers are read with is not read back. -/
theorem not_readsBack_long : ¬∀ t : Ty, t.Expressible → ReadsBack (fun _ => false) t := by
  intro all
  have short := (written_int ((10 ^ Decimal.digitLimit : Nat) : Int)).readsBack_iff.1 (all _ (.int _))
  simp only [Ty.isShort_eq, Bool.and_eq_true, decide_eq_true_eq, Int.natAbs_natCast] at short
  have few := (Nat.length_toDigits_le_iff (by decide) (by decide)).1 short.1
  exact absurd few (Nat.lt_irrefl _)

end TypeExpr

end DocTree
