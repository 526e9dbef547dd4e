import DocTree.Proofs.TypeExpr.Visit
import Mathlib.Data.List.Forall2
import Mathlib.Data.Option.Basic

/-!
# What is made from the trees of the rules

* `Means b t e` : the type that is made from a tree is the type that an expression denotes;
* `Lists b pick t x`, `ListsAll b pick ts x` : what is collected from a tree, or from several;
  `ListsAll.cons`, `ListsAll.word`, `listsAll_each`;
* `Idle b ts` : nothing is done in making something from some trees;
* `means_union`, `means_function`, … : one lemma for each rule with a meaning.
-/

namespace DocTree.TypeExpr

open Visited (collect collectAll)
open DocTree.TypeExpr.Tree (word gap)

variable {m : Type → Type} [Monad m] {α β : Type} {b : Builder m} {pick : Visited → Option α} {t : Tree}
  {ts : List Tree} {e : Expr} {es : List Expr} {label : Option Label} {x y : m (List α)}

/-- The type that is made from a tree is the type that an expression denotes. -/
def Means (b : Builder m) (t : Tree) (e : Expr) : Prop := visit b t = liftM (Visited.type <$> build b e)

/-- What is collected from what is made from a tree. -/
def Lists (b : Builder m) (pick : Visited → Option α) (t : Tree) (x : m (List α)) : Prop :=
  collect pick <$> visit b t = liftM x

def ListsAll (b : Builder m) (pick : Visited → Option α) (ts : List Tree) (x : m (List α)) : Prop :=
  collectAll pick <$> visitAll b ts = liftM x

/-- Nothing is done in making something from some trees. -/
def Idle (b : Builder m) (ts : List Tree) : Prop := ∃ visited, visitAll b ts = pure visited

/-- Trees without meaning are made into themselves, or into lists. -/
def isPlain : Option Label → Bool
  | none | some .blanks | some .someBlanks | some .parameters | some .elements | some .members
  | some .separator | some .arguments | some .suffix | some .operatorWord | some .rest | some .mark => true
  | _ => false

theorem assemble_plain (plain : isPlain t.label = true) (visited : List Visited) :
    assemble b t visited = pure (if visited.isEmpty then .tree t else .list visited) := by
  unfold assemble
  cases found : t.label with
  | none => rfl
  | some label =>
    rw [found] at plain
    cases label <;> first | rfl | cases plain

theorem visit_leaf (plain : isPlain label = true) (cs : List Char) :
    visit b (.leaf label cs) = pure (.tree (.leaf label cs)) :=
  assemble_plain (t := .leaf label cs) plain []

theorem idle_nil : Idle b [] := ⟨_, rfl⟩

theorem buildAll_eq (es : List Expr) : buildAll b es = es.mapM' (build b) := by
  induction es with
  | nil => rfl
  | cons e es ih => simp only [buildAll, List.mapM', ih]

section

variable [LawfulMonad m]

theorem Idle.cons (first : ∃ v, visit b t = pure v) (more : Idle b ts) : Idle b (t :: ts) := by
  obtain ⟨v, first⟩ := first
  obtain ⟨vs, more⟩ := more
  exact ⟨v :: vs, by simp [visitAll, first, more]⟩

theorem Idle.node (plain : isPlain label = true) (h : Idle b ts) : ∃ v, visit b (.node label ts) = pure v := by
  obtain ⟨vs, h⟩ := h
  exact ⟨_, by rw [visit, h, pure_bind, assemble_plain (t := .node label ts) plain]⟩

/-! ## Lists -/

theorem listsAll_nil : ListsAll b pick [] (pure []) := by
  simp [ListsAll, visitAll, collectAll]

theorem ListsAll.cons (first : Lists b pick t x) (more : ListsAll b pick ts y) :
    ListsAll b pick (t :: ts) (do return (← x) ++ (← y)) := by
  unfold Lists ListsAll at *
  simp only [visitAll, liftM, monadLift_bind, monadLift_pure] at *
  simp only [← first, ← more, map_bind, bind_map_left, map_pure, collectAll]

/-- What is collected from a tree in a list is collected from the list. -/
theorem Lists.node (words : ∀ t, pick (.tree t) = none) (plain : isPlain label = true) (h : ListsAll b pick ts x) :
    Lists b pick (.node label ts) x := by
  unfold Lists ListsAll at *
  rw [← h, visit, map_bind, ← bind_pure_comp]
  refine bind_congr fun visited => ?_
  rw [assemble_plain (t := .node label ts) plain, map_pure]
  cases visited with
  | nil => simp [collect, collectAll, words]
  | cons v vs => simp [collect]

theorem lists_leaf (words : ∀ t, pick (.tree t) = none) (plain : isPlain label = true) (cs : List Char) :
    Lists b pick (.leaf label cs) (pure []) := by
  simp [Lists, visit_leaf plain, collect, words]

theorem ListsAll.word (words : ∀ t, pick (.tree t) = none) (plain : isPlain label = true) {cs : List Char}
    (h : ListsAll b pick ts x) : ListsAll b pick (.leaf label cs :: ts) x := by
  have all := ListsAll.cons (lists_leaf words plain cs) h
  simpa using all

theorem ListsAll.alone (first : Lists b pick t x) (more : ListsAll b pick ts (pure [])) :
    ListsAll b pick (t :: ts) x := by
  have all := ListsAll.cons first more
  simpa using all

theorem listsAll_each {f : β → m α} {as : List β}
    (h : List.Forall₂ (fun t a => Lists b pick t ((fun a => [a]) <$> f a)) ts as) :
    ListsAll b pick ts (as.mapM' f) := by
  induction h with
  | nil => exact listsAll_nil
  | cons first _ ih =>
    have all := ListsAll.cons first ih
    simpa [List.mapM'] using all

theorem buildMembers_eq (ms : List (String × Expr)) :
    buildMembers b ms = ms.mapM' fun p => (p.1, ·) <$> build b p.2 := by
  induction ms with
  | nil => rfl
  | cons p ms ih => simp [buildMembers, List.mapM', ih]

theorem buildParameters_eq (ps : List ((String × Marks) × Expr)) :
    buildParameters b ps = ps.mapM' fun p => (p.1, ·) <$> build b p.2 := by
  induction ps with
  | nil => rfl
  | cons p ps ih => simp [buildParameters, List.mapM', ih]

theorem Means.lists (h : Means b t e) : Lists b Visited.type? t ((fun t => [t]) <$> build b e) := by
  unfold Means Lists at *
  simp [h, collect, Visited.type?]

/-! ## Combined types -/

theorem build_combine {f : List Expr → Expr} {g : List Ty → Ty}
    (same : ∀ es, build b (f es) = g <$> buildAll b es) (es : List Expr) :
    build b (Grammar.combine f es) = combined g <$> buildAll b es := by
  match es with
  | [] => simpa [Grammar.combine, buildAll, combined] using same []
  | [e] => simp [Grammar.combine, buildAll, combined]
  | e :: e' :: es => simpa [Grammar.combine, buildAll, combined] using same (e :: e' :: es)

theorem means_union (h : ListsAll b Visited.type? ts (buildAll b es)) :
    Means b (.node (some .union) ts) (Grammar.combine .union es) := by
  unfold ListsAll Means at *
  rw [build_combine (g := .union) (fun es => by simp [build])]
  simp [visit, assemble, Tree.label, ← h]

theorem means_intersection (h : ListsAll b Visited.type? ts (buildAll b es)) :
    Means b (.node (some .intersection) ts) (Grammar.combine .intersection es) := by
  unfold ListsAll Means at *
  rw [build_combine (g := .intersection) (fun es => by simp [build])]
  simp [visit, assemble, Tree.label, ← h]

/-! ## Other types with parts -/

theorem means_suffixed {suffixes : List Tree} (h : Means b t e) (idle : Idle b suffixes) :
    Means b (.node (some .suffixed) [t, .node none suffixes]) (suffixes.foldl (fun e _ => .array e) e) := by
  have arrays : ∀ e, build b (suffixes.foldl (fun e _ => .array e) e) =
      (fun t => suffixes.foldl (fun t _ => .array t) t) <$> build b e := by
    clear h idle
    induction suffixes with
    | nil => simp
    | cons s suffixes ih =>
      intro e
      rw [List.foldl_cons, ih, build]
      simp
  obtain ⟨v, idle⟩ := idle
  unfold Means at *
  rw [arrays]
  simp [visit, visitAll, assemble, Tree.label, Tree.children, entry, typeAt, h, idle]

theorem means_function (ts : List Tree) {ps : List ((String × Marks) × Expr)}
    (h : ListsAll b Visited.parameter? ts (buildParameters b ps)) (result : Means b t e) :
    Means b (.node (some .function) (ts ++ [t])) (.function ps e) := by
  have all : ∀ ts, visitAll b (ts ++ [t]) = do return (← visitAll b ts) ++ [← visit b t] := by
    intro ts
    induction ts with
    | nil => simp [visitAll]
    | cons t' ts ih => simp [visitAll, ih]
  unfold ListsAll Means at *
  simp [visit, assemble, Tree.label, entry, typeAt, all, result, build, ← h, Builder.inline]

theorem means_tuple (h : ListsAll b Visited.type? ts (buildAll b es)) :
    Means b (.node (some .tuple) ts) (.tuple es) := by
  unfold ListsAll Means at *
  simp [visit, assemble, Tree.label, build, ← h]

theorem means_object {ms : List (String × Expr)} (h : ListsAll b Visited.member? ts (buildMembers b ms)) :
    Means b (.node (some .object) ts) (.object ms) := by
  unfold ListsAll Means at *
  simp [visit, assemble, Tree.label, build, ← h, Builder.inline]

theorem means_reference {path : String} (name : visit b t = pure (.text path))
    (h : ListsAll b Visited.type? ts (buildAll b es)) :
    Means b (.node (some .reference) (t :: ts)) (.name path es) := by
  have built : build b (.name path es) = buildAll b es >>= b.name path := by
    unfold build Builder.name
    rfl
  unfold ListsAll Means at *
  simp [visit, visitAll, assemble, Tree.label, entry, textAt, name, built, ← h]

theorem means_parenthesized {cs ds ps qs : List Char} (h : Means b t e) :
    Means b (.node (some .parenthesized) [word cs, gap ps, t, gap qs, word ds]) e := by
  unfold Means at *
  simp [visit, visitAll, assemble, Tree.label, entry, h]

theorem means_primary (h : Means b t e) : Means b (.node (some .primary) [t]) e := by
  unfold Means at *
  simp [visit, visitAll, assemble, Tree.label, entry, h]

theorem means_type {cs ds : List Char} (h : Means b t e) : Means b (.node (some .type) [gap cs, t, gap ds]) e := by
  unfold Means at *
  simp [visit, visitAll, assemble, Tree.label, entry, h]

theorem means_operator {w cs : List Char} (h : Means b t e) :
    Means b (.node (some .operator) [.node (some .operatorWord) [word w], .leaf (some .someBlanks) cs, t])
      (.operator (String.ofList w) e) := by
  unfold Means at *
  simp [visit, visitAll, assemble, Tree.label, Tree.children, Tree.text, Tree.textAll, entry, typeAt, build, h]

theorem means_query {w cs : List Char} {path : String} (name : visit b t = pure (.text path)) :
    Means b (.node (some .query) [word w, .leaf (some .someBlanks) cs, t]) (.query path) := by
  unfold Means
  simp [visit, visitAll, assemble, Tree.label, entry, textAt, build, name]

/-! ## Names with types -/

def marked (label : Option Label) (w : String) (isThere : Bool) : Tree :=
  .node none (if isThere then [.leaf label w.toList] else [])

theorem visit_marked (label : Option Label) (plain : isPlain label = true) (w : String) (isThere : Bool) :
    visit b (marked label w isThere) =
      pure (if isThere then .list [.tree (.leaf label w.toList)] else .tree (.node none [])) := by
  cases isThere with
  | false => simp [marked, visit, visitAll, assemble, Tree.label]
  | true =>
    simp only [marked, if_true]
    rw [visit, visitAll, visit_leaf plain]
    simp [visitAll, assemble, Tree.label]

theorem text_marked (label : Option Label) {w : String} (solid : w.toList ≠ []) (isThere : Bool) :
    decide ((marked label w isThere).text = w.toList) = isThere := by
  cases isThere <;> simp [marked, Tree.text, Tree.textAll, solid]

theorem lists_member {cs ps qs w : List Char} (isOptional : Bool) (h : Means b t e) :
    Lists b Visited.member?
      (.node (some .member)
        [.leaf (some .identifier) cs, marked (some .mark) "?" isOptional, gap ps, word w, gap qs, t])
      ((fun p => [p]) <$> (String.ofList cs, ·) <$> build b e) := by
  have mark := visit_marked (b := b) (some .mark) rfl "?" isOptional
  unfold Lists Means at *
  simp [visitAll, visit, assemble, Tree.label, Tree.children, Tree.text, entry, textAt, typeAt, collect,
    Visited.member?, mark, h]

theorem lists_parameter {cs ps qs w : List Char} (isRest isOptional : Bool) (h : Means b t e) :
    Lists b Visited.parameter?
      (.node (some .parameter)
        [marked (some .rest) "..." isRest, .leaf (some .identifier) cs, marked (some .mark) "?" isOptional, gap ps,
          word w, gap qs, t])
      ((fun p => [p]) <$> ((String.ofList cs, ⟨isOptional, isRest⟩), ·) <$> build b e) := by
  have rest := visit_marked (b := b) (some .rest) rfl "..." isRest
  have mark := visit_marked (b := b) (some .mark) rfl "?" isOptional
  have restText : decide (_ = ['.', '.', '.']) = _ := text_marked (some .rest) (w := "...") (by decide) isRest
  have markText : decide (_ = ['?']) = _ := text_marked (some .mark) (w := "?") (by decide) isOptional
  unfold Lists Means at *
  simp [visitAll, visit, assemble, Tree.label, Tree.children, Tree.text, entry, textAt, typeAt, collect,
    Visited.parameter?, rest, mark, h, restText, markText]

theorem visit_path (idle : Idle b ts) :
    visit b (.node (some .path) ts) = pure (.text (String.ofList (Tree.textAll ts))) := by
  obtain ⟨v, idle⟩ := idle
  simp [visit, idle, assemble, Tree.label, Tree.text]

/-! ## Literals -/

theorem means_string (cs : List Char) :
    Means b (.node (some .string) [word cs]) (.literal (.str (String.ofList (unescape cs.tail.dropLast)))) := by
  unfold Means
  simp [visit, visitAll, assemble, Tree.label, Tree.text, Tree.textAll, build]

theorem means_number (cs : List Char) :
    Means b (.leaf (some .number) cs) (((numberValue cs).map Expr.literal).getD .longNumber) := by
  unfold Means
  cases found : numberValue cs <;> simp [visit, assemble, Tree.label, Tree.text, found, build]

theorem means_keyword {w cs : List Char} {v : Value} (found : keywordValues.lookup (String.ofList w) = some v) :
    Means b (.node (some .keyword) [.node none [word w], word cs]) (.literal v) := by
  unfold Means
  simp [visit, visitAll, assemble, Tree.label, Tree.children, Tree.text, Tree.textAll, entry, found, build]

end

end DocTree.TypeExpr
