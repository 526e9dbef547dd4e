import DocTree.Proofs.TypeExpr.Shapes

/-!
# The trees of types

Every tree that is read has the shape that its rule has, so that what is made from it by position is what the rule
reads: no position is out of range, and nothing made from a part is left out.

* `pairs_perhaps`, `pairs_further`, `pairs_separated`, `listsAll_bracketed` : lists, and what is collected from them;
* `Level.Reads b l l'` : the rules of two levels read trees and what they mean; `pairs_level` : all levels do;
* `visit_parse` : a text is refused at the same position, or the type made from its tree is the one that it denotes.
-/

namespace DocTree.TypeExpr

open Rule (Pairs pairs_pure pairs_refl)
open DocTree.TypeExpr.Tree (word gap)
open Concrete (series)

variable {m : Type → Type} [Monad m] [LawfulMonad m] {α β : Type} {b : Builder m} {pick : Visited → Option α}
  {t : Tree} {ts : List Tree} {e : Expr} {es : List Expr}

/-! ## Lists -/

section

variable {γ : Type} {f : β → m α} {p : Rule Tree} {ps : List (Rule Tree)} {r : Rule β} {w : String}

/-- A tree gives one item. -/
def Item (b : Builder m) (pick : Visited → Option α) (f : β → m α) (t : Tree) (a : β) : Prop :=
  Lists b pick t ((fun a => [a]) <$> f a)

theorem pairs_perhaps (words : ∀ t, pick (.tree t) = none) {g : List β → m (List α)} (none : g [] = pure [])
    {r : Rule (List β)} (h : Pairs (fun t as => Lists b pick t (g as)) p r) :
    Pairs (fun t o => Lists b pick t (g (o.getD []))) (Concrete.perhaps p) (Rule.opt r) := by
  refine h.perhaps.mono ?_
  rintro t o ⟨o', rfl, related⟩
  cases related with
  | none =>
    rw [Option.getD_none, none]
    exact Lists.node words rfl listsAll_nil
  | some here => exact Lists.node words rfl (.alone here listsAll_nil)

theorem listsAll_bracketed (words : ∀ t, pick (.tree t) = none) {left cs ds right : List Char} {x : m (List α)}
    (here : Lists b pick t x) (rest : ListsAll b pick ts (pure [])) :
    ListsAll b pick (word left :: gap cs :: t :: gap ds :: word right :: ts) x :=
  .word words rfl (.word words rfl (.alone here (.word words rfl (.word words rfl rest))))

variable (words : ∀ t, pick (.tree t) = none) (item : Pairs (Item b pick f) p r)
include words item

theorem pairs_further (w : String) :
    Pairs (fun t as => Lists b pick t (as.mapM' f)) (Concrete.further p w) (Rule.many do
      Grammar.spaced w
      r) := by
  have part : Pairs (Item b pick f) (Concrete.parts none [Concrete.blanks, Concrete.literal none w, Concrete.blanks, p])
      (do
        Grammar.spaced w
        r) := by
    refine .parts (.spaced fun cs ds => ?_)
    rw [← Rule.bind_return r]
    refine item.first fun here => pairs_done ?_
    exact Lists.node words rfl (.word words rfl (.word words rfl (.word words rfl (.alone here listsAll_nil))))
  refine part.repeated.mono ?_
  rintro t as ⟨ts, rfl, related⟩
  exact Lists.node words rfl (listsAll_each related)

/-- One item or more, and what follows. -/
theorem pairs_separated {w : String} {N : List Tree → γ → Prop} {g : List β → Rule γ}
    (more : ∀ {t t' as},
      (∀ {ts}, ListsAll b pick ts (pure []) → ListsAll b pick (t :: t' :: ts) (as.mapM' f)) →
        Pairs (fun ts c => N (t :: t' :: ts) c) (series ps) (g as)) :
    Pairs N (series (p :: Concrete.further p w :: ps)) (Grammar.separated r w >>= g) := by
  unfold Grammar.separated
  rw [Rule.bind_bind]
  refine item.first fun {t a} here => ?_
  rw [Rule.bind_bind]
  refine (pairs_further words item w).first fun {t' as} others => more fun rest => ?_
  have all := ListsAll.cons here (ListsAll.alone others rest)
  simpa [List.mapM'] using all

end

/-! ## Types -/

/-- The rules of two levels read trees and what they mean. -/
structure Level.Reads (b : Builder m) (l : Concrete.Level) (l' : Grammar.Level) : Prop where
  union : Pairs (Means b) l.union l'.union
  operand : Pairs (Means b) l.operand l'.operand

theorem pairs_joined {p : Rule Tree} {r : Rule Expr} {w : String} {label : Label} {f : List Expr → Expr}
    (item : Pairs (Means b) p r)
    (means : ∀ {ts es}, ListsAll b Visited.type? ts (buildAll b es) →
      Means b (.node label ts) (Grammar.combine f es)) :
    Pairs (Means b) (Concrete.parts label [p, Concrete.further p w]).named
      (Rule.named do return Grammar.combine f (← Grammar.separated r w)) := by
  refine (Pairs.parts ?_).named
  refine pairs_separated (fun _ => rfl) (item.mono fun here => here.lists) fun {t t' as} all => pairs_done ?_
  refine means ?_
  rw [buildAll_eq]
  exact all listsAll_nil

section

variable {l : Concrete.Level} {l' : Grammar.Level} (h : Level.Reads b l l')
include h

theorem pairs_member :
    Pairs (Item b Visited.member? fun p => (p.1, ·) <$> build b p.2) (Concrete.member l) (Grammar.member l') := by
  refine (Pairs.parts ?_).named
  refine pairs_identifier.first ?_
  rintro _ cs rfl
  refine (pairs_marked (some .mark) "?").first ?_
  rintro _ mark rfl
  refine .spaced fun ps qs => ?_
  refine h.union.first fun {t e} here => pairs_done ?_
  exact lists_member mark.isSome here

theorem pairs_parameter :
    Pairs (Item b Visited.parameter? fun p => (p.1, ·) <$> build b p.2) (Concrete.parameter l)
      (Grammar.parameter l') := by
  refine (Pairs.parts ?_).named
  refine (pairs_marked (some .rest) "...").first ?_
  rintro _ rest rfl
  refine pairs_identifier.first ?_
  rintro _ cs rfl
  refine (pairs_marked (some .mark) "?").first ?_
  rintro _ mark rfl
  refine .spaced fun ps qs => ?_
  refine h.union.first fun {t e} here => pairs_done ?_
  exact lists_parameter rest.isSome mark.isSome here

theorem pairs_members :
    Pairs (fun t ms => Lists b Visited.member? t (buildMembers b ms)) (Concrete.members l) (Grammar.members l') := by
  have words : ∀ t, Visited.member? (.tree t) = none := fun _ => rfl
  have separator : ∀ w, Lists b Visited.member? (.node (some .separator) [word w]) (pure []) :=
    fun w => Lists.node words rfl (.word words rfl listsAll_nil)
  have member := pairs_member h
  have further : Pairs (Item b Visited.member? fun p => (p.1, ·) <$> build b p.2)
      (Concrete.parts none [Concrete.blanks, Concrete.separator, Concrete.blanks, Concrete.member l])
      (do
        Grammar.blanks
        Grammar.separator
        Grammar.blanks
        Grammar.member l') := by
    refine .parts (pairs_blanks.first ?_)
    rintro _ _ ⟨cs, rfl⟩
    refine pairs_separator.first ?_
    rintro _ _ ⟨w, rfl⟩
    refine pairs_blanks.first ?_
    rintro _ _ ⟨ds, rfl⟩
    rw [← Rule.bind_return (Grammar.member l')]
    refine member.first fun here => pairs_done ?_
    have last : ListsAll b Visited.member? [gap ds, _] _ := .word words rfl (.alone here listsAll_nil)
    have all := ListsAll.cons (separator w) last
    refine Lists.node words rfl (.word words rfl ?_)
    simpa using all
  have last : Pairs (fun t (_ : Unit) => Lists b Visited.member? t (pure []))
      (Concrete.parts none [Concrete.blanks, Concrete.separator])
      (do
        Grammar.blanks
        Grammar.separator) := by
    refine .parts (pairs_blanks.first ?_)
    rintro _ _ ⟨cs, rfl⟩
    rw [← Rule.bind_return Grammar.separator]
    refine pairs_separator.first ?_
    rintro _ _ ⟨w, rfl⟩
    exact pairs_done (Lists.node words rfl (.word words rfl (.alone (separator w) listsAll_nil)))
  refine (Pairs.parts ?_).named
  refine member.first fun {t p} here => ?_
  refine further.repeated.first ?_
  rintro _ ms ⟨ts, rfl, related⟩
  refine last.perhaps.first ?_
  rintro _ o ⟨o', rfl, end'⟩
  refine pairs_done (Lists.node words rfl ?_)
  have ending : Lists b Visited.member? (.node none o'.toList) (pure []) := by
    cases end' with
    | none => exact Lists.node words rfl listsAll_nil
    | some here => exact Lists.node words rfl (.alone here listsAll_nil)
  have others : Lists b Visited.member? (.node none ts) _ := Lists.node words rfl (listsAll_each related)
  have all := ListsAll.cons here (.alone others (.alone ending listsAll_nil))
  rw [buildMembers_eq]
  simpa [List.mapM'] using all

theorem pairs_object : Pairs (Means b) (Concrete.object l) (Grammar.object l') := by
  have words : ∀ t, Visited.member? (.tree t) = none := fun _ => rfl
  refine (Pairs.parts ?_).named
  refine (pairs_perhaps words (g := buildMembers b) rfl (pairs_members h)).bracketed fun cs ds {t ms} here => ?_
  exact pairs_done (means_object (listsAll_bracketed words here listsAll_nil))

theorem pairs_parameters :
    Pairs (fun t ps => Lists b Visited.parameter? t (buildParameters b ps)) (Concrete.parameters l)
      (Grammar.parameters l') := by
  have words : ∀ t, Visited.parameter? (.tree t) = none := fun _ => rfl
  unfold Grammar.parameters
  rw [← Rule.bind_return (Grammar.separated _ _)]
  refine (Pairs.parts ?_).named
  refine pairs_separated words (pairs_parameter h) fun all => pairs_done ?_
  rw [buildParameters_eq]
  exact Lists.node words rfl (all listsAll_nil)

theorem pairs_function : Pairs (Means b) (Concrete.function l) (Grammar.function l') := by
  have words : ∀ t, Visited.parameter? (.tree t) = none := fun _ => rfl
  refine (Pairs.parts ?_).named
  refine (pairs_perhaps words (g := buildParameters b) rfl (pairs_parameters h)).bracketed fun cs ds {t ps} here => ?_
  refine .spaced fun es fs => ?_
  refine h.union.first fun {u e} result => pairs_done ?_
  refine means_function [_, _, t, _, _, _, _, _] (listsAll_bracketed words here ?_) result
  exact .word words rfl (.word words rfl (.word words rfl listsAll_nil))

theorem pairs_parenthesized : Pairs (Means b) (Concrete.parenthesized l) (Grammar.parenthesized l') := by
  refine (Pairs.parts ?_).named
  exact h.union.bracketed fun cs ds {t e} here => pairs_done (means_parenthesized here)

theorem pairs_elements :
    Pairs (fun t es => Lists b Visited.type? t (buildAll b es)) (Concrete.elements l) (Grammar.elements l') := by
  have words : ∀ t, Visited.type? (.tree t) = none := fun _ => rfl
  unfold Grammar.elements
  rw [← Rule.bind_return (Grammar.separated _ _)]
  refine (Pairs.parts ?_).named
  refine pairs_separated words (h.union.mono fun here => here.lists) fun all => pairs_done ?_
  rw [buildAll_eq]
  exact Lists.node words rfl (all listsAll_nil)

theorem pairs_tuple : Pairs (Means b) (Concrete.tuple l) (Grammar.tuple l') := by
  have words : ∀ t, Visited.type? (.tree t) = none := fun _ => rfl
  refine (Pairs.parts ?_).named
  refine (pairs_perhaps words (g := buildAll b) rfl (pairs_elements h)).bracketed fun cs ds {t es} here => ?_
  exact pairs_done (means_tuple (listsAll_bracketed words here listsAll_nil))

theorem pairs_operator : Pairs (Means b) (Concrete.operator l) (Grammar.operator l') := by
  refine (Pairs.parts ?_).named
  refine pairs_operatorWord.first ?_
  rintro _ w rfl
  refine pairs_someBlanks.first ?_
  rintro _ _ ⟨cs, rfl⟩
  refine h.operand.first fun {t e} here => pairs_done ?_
  have means : Means b (.node (some .operator) [_, .leaf (some .someBlanks) cs, t])
      (.operator (String.ofList w.toList) e) := means_operator here
  rwa [String.ofList_toList] at means

theorem pairs_arguments :
    Pairs (fun t es => Lists b Visited.type? t (buildAll b es)) (Concrete.arguments l) (Grammar.arguments l') := by
  have words : ∀ t, Visited.type? (.tree t) = none := fun _ => rfl
  refine (Pairs.parts ?_).named
  refine .spaced fun cs ds => ?_
  refine pairs_separated words (h.union.mono fun here => here.lists) fun {t t' es} all => ?_
  refine pairs_blanks.first ?_
  rintro _ _ ⟨fs, rfl⟩
  refine (pairs_literal none ">").first ?_
  rintro _ _ rfl
  refine pairs_done (Lists.node words rfl ?_)
  rw [buildAll_eq]
  refine .word words rfl (.word words rfl (.word words rfl (all ?_)))
  exact .word words rfl (.word words rfl listsAll_nil)

theorem pairs_reference : Pairs (Means b) (Concrete.reference l) (Grammar.reference l') := by
  have words : ∀ t, Visited.type? (.tree t) = none := fun _ => rfl
  refine (Pairs.parts ?_).named
  refine (pairs_path (b := b)).first fun {t path} name => ?_
  refine (pairs_perhaps words (g := buildAll b) rfl (pairs_arguments h)).first fun {t' es} here => pairs_done ?_
  exact means_reference name (.alone here listsAll_nil)

theorem pairs_primary : Pairs (Means b) (Concrete.primary l) (Grammar.primary l') := by
  have literal : ∀ {p : Rule Tree} {r : Rule Value}, Pairs (fun t v => Means b t (.literal v)) p r →
      Pairs (Means b) p (Grammar.literal r) := fun h => h.onto fun here => here
  have alone : ∀ {p : Rule Tree} {r : Rule Expr}, Pairs (Means b) p r →
      Pairs (fun t e => Means b (.node (some .primary) [t]) e) p r := fun h => h.mono means_primary
  refine (Pairs.oneOf ?_).named
  exact .cons (alone (pairs_function h)) (.cons (alone (pairs_parenthesized h)) (.cons (alone (pairs_tuple h))
    (.cons (alone (pairs_object h)) (.cons (alone (pairs_operator h)) (.cons (alone pairs_query)
      (.cons (alone (literal pairs_string)) (.cons (alone pairs_number) (.cons (alone (literal pairs_keyword))
        (.cons (alone (pairs_reference h)) .nil)))))))))

theorem pairs_suffixed : Pairs (Means b) (Concrete.suffixed l) (Grammar.suffixed l') := by
  have suffix : Pairs (fun t (_ : Unit) => ∃ v, visit b t = pure v) Concrete.suffix Grammar.suffix := by
    refine (Pairs.parts ?_).named
    refine .spaced fun cs ds => ?_
    rw [← Rule.bind_return (Rule.word "]")]
    refine (pairs_literal none "]").first ?_
    rintro _ _ rfl
    exact pairs_done (Idle.node rfl (.cons ⟨_, rfl⟩ (.cons ⟨_, rfl⟩ (.cons ⟨_, rfl⟩ (.cons ⟨_, rfl⟩ idle_nil)))))
  refine (Pairs.parts ?_).named
  refine (pairs_primary h).first fun {t e} here => ?_
  refine suffix.repeated.first ?_
  rintro _ us ⟨ts, rfl, related⟩
  have idle : Idle b ts := by
    clear * - related
    induction related with
    | nil => exact idle_nil
    | cons here _ ih => exact .cons here ih
  have arrays : ∀ e : Expr, us.foldl (fun e _ => .array e) e = ts.foldl (fun e _ => .array e) e := by
    clear * - related
    induction related with
    | nil => exact fun _ => rfl
    | cons _ _ ih => exact fun e => ih (.array e)
  refine pairs_done ?_
  rw [arrays]
  exact means_suffixed here idle

theorem pairs_intersection : Pairs (Means b) (Concrete.intersection l) (Grammar.intersection l') :=
  pairs_joined (pairs_suffixed h) means_intersection

theorem pairs_union : Pairs (Means b) (Concrete.union l) (Grammar.union l') :=
  pairs_joined (pairs_intersection h) means_union

end

/-- All levels read trees and what they mean. -/
theorem pairs_level (b : Builder m) (n : Nat) : Level.Reads b (Concrete.level n) (Grammar.level n) := by
  induction n with
  | zero => exact ⟨Rule.pairs_fail, Rule.pairs_fail⟩
  | succ n ih => exact ⟨pairs_union ih, pairs_suffixed ih⟩

theorem pairs_type (b : Builder m) (n : Nat) : Pairs (Means b) (Concrete.type n) (Grammar.type n) := by
  refine (Pairs.parts ?_).named
  refine pairs_blanks.first ?_
  rintro _ _ ⟨cs, rfl⟩
  refine (pairs_level b n).union.first fun {t e} here => ?_
  refine pairs_blanks.first ?_
  rintro _ _ ⟨ds, rfl⟩
  exact pairs_done (means_type here)

/-- A type is made from a tree by position. Whatever the text, it is refused at the same position, or the type that
is made from its tree is the one that it denotes. -/
theorem visit_parse (b : Builder m) (text : String) :
    (∃ position, Tree.parse text = .error position ∧ parse text = .error position) ∨
      ∃ t e, Tree.parse text = .ok t ∧ parse text = .ok e ∧ Means b t e := by
  unfold Tree.parse parse
  have answers := pairs_type b (text.toList.length + 1) text.toList
  dsimp only
  generalize Concrete.type (text.toList.length + 1) text.toList = x at answers ⊢
  generalize Grammar.type (text.toList.length + 1) text.toList = y at answers ⊢
  cases answers with
  | stuck => exact .inl ⟨_, rfl, rfl⟩
  | @read t e rest trace means =>
    cases rest with
    | nil => exact .inr ⟨t, e, rfl, rfl, means⟩
    | cons c rest => exact .inl ⟨_, rfl, rfl⟩

end DocTree.TypeExpr
