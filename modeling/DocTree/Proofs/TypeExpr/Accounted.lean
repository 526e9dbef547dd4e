import DocTree.Proofs.TypeExpr.Numbering
import DocTree.Proofs.TypeExpr.Positions

/-!
# What comes of a text

* `typeOf text` : the type that a text denotes by itself; `typeOfTree text` : the one that is made from its tree;
* `Tree.IsOverlong t` : a whole number in a tree has too many digits; `visit_overlong` : just then making a type fails;
* `Settled text nodes` : a text is refused and nothing is added, or it is accepted and all numbers are in order;
* `typeOf_accounted` : every text is settled but those with a whole number of too many digits.
-/

namespace DocTree

namespace Text

theorem length_readPoints_take_le (cs : List Char) (n : Nat) :
    (readPoints (cs.take n)).length ≤ (readPoints cs).length := by
  induction cs using readPoints.induct generalizing n with
  | case1 => simp
  | case2 c => cases n <;> simp [readPoints]
  | case3 d cs ih =>
    rcases n with - | - | n
    · simp [readPoints]
    · simp [readPoints]
    · simpa [readPoints] using ih n
  | case4 c d cs other ih =>
    rcases n with - | - | n
    · simp [readPoints]
    · simp [readPoints, other]
    · simpa [readPoints, other] using ih (n + 1)

end Text

namespace TypeExpr

/-! ## Refused texts -/

theorem position_le (text : String) (left : Nat) : position text.toList left ≤ (Text.points text).length :=
  Text.length_readPoints_take_le _ _

theorem le_of_parse_error {text : String} {place : Nat} (h : parse text = .error place) :
    place ≤ (Text.points text).length := by
  unfold parse at h
  dsimp only at h
  split at h
  · cases h
  · cases h
    exact position_le ..
  · cases h
    exact position_le ..

/-! ## Whole numbers with too many digits -/

/-- The characters of a whole number with more digits than whole numbers are read from. -/
def IsLong (cs : List Char) : Prop := '.' ∉ unsigned cs ∧ Decimal.digitLimit < (unsigned cs).length

theorem numberValue_eq_none_iff {cs : List Char} : numberValue cs = none ↔ IsLong cs := by
  have points : '.' ∉ unsigned cs ↔ (unsigned cs).dropWhile (· ≠ '.') = [] := by
    rw [List.dropWhile_eq_nil_iff]
    constructor
    · rintro none d mem
      exact decide_eq_true fun same => none (same ▸ mem)
    · intro all mem
      exact absurd (all '.' mem) (by decide)
  unfold numberValue IsLong
  rw [points]
  dsimp only
  split
  · rename_i c fraction behind
    rw [behind]
    exact iff_of_false nofun fun h => List.cons_ne_nil _ _ h.1
  · rename_i behind
    have whole : (unsigned cs).takeWhile (· ≠ '.') = unsigned cs := by
      have parts := List.takeWhile_append_dropWhile (p := (· ≠ '.')) (l := unsigned cs)
      rwa [behind, List.append_nil] at parts
    rw [whole, behind, Option.map_eq_none_iff, Decimal.whole?]
    simp

/-- A tree is that of a whole number with too many digits, or has such a tree inside. -/
inductive Tree.IsOverlong : Tree → Prop
  | here {t : Tree} : t.label = some .number → IsLong t.text → IsOverlong t
  | inside {t u : Tree} : u ∈ t.children → IsOverlong u → IsOverlong t

/-- Whatever there is, a computation does not fail. -/
def Calm {α : Type} (x : ExceptT Misfit Building α) : Prop :=
  ∀ nodes, Meets x.run nodes (fun _ _ => True) fun _ _ => False

section

variable {α β : Type} {x : ExceptT Misfit Building α} {f : α → ExceptT Misfit Building β}

theorem calm_pure (a : α) : Calm (pure a) := fun _ => meets_pure trivial

theorem calm_throw (e : Misfit) : Calm (throw e : ExceptT Misfit Building α) := fun _ => meets_pure trivial

theorem Calm.bind (h : Calm x) (h' : ∀ a, Calm (f a)) : Calm (x >>= f) := by
  intro nodes
  rw [ExceptT.run_bind]
  refine meets_bind (h nodes) fun r nodes' _ => ?_
  cases r with
  | ok a => exact h' a nodes'
  | error e => exact meets_pure trivial

theorem calm_entry {as : List α} {i : Nat} : Calm (entry as i : ExceptT Misfit Building α) := by
  unfold entry
  split
  · exact calm_pure _
  · exact calm_throw _

theorem calm_typeAt {visited : List Visited} {i : Nat} : Calm (typeAt visited i : ExceptT Misfit Building Ty) := by
  unfold typeAt
  refine calm_entry.bind fun v => ?_
  split
  · exact calm_pure _
  · exact calm_throw _

theorem calm_textAt {visited : List Visited} {i : Nat} : Calm (textAt visited i : ExceptT Misfit Building String) := by
  unfold textAt
  refine calm_entry.bind fun v => ?_
  split
  · exact calm_pure _
  · exact calm_throw _

theorem calm_inline {nodes : NodeId → List Node} :
    Calm (liftM (outsideBuilder.inline nodes) : ExceptT Misfit Building Ty) := fun _ => trivial

theorem calm_name {path : String} {args : List Ty} :
    Calm (liftM (outsideBuilder.name path args) : ExceptT Misfit Building Ty) := by
  unfold Builder.name
  split <;> exact fun _ => trivial

end

/-- Only a number makes it fail to make something from a tree. -/
theorem calm_assemble {t : Tree} (other : t.label ≠ some .number) (visited : List Visited) :
    Calm (assemble outsideBuilder t visited) := by
  unfold assemble
  cases found : t.label with
  | none => exact calm_pure _
  | some label =>
    cases label with
    | number => exact absurd found other
    | type => exact calm_entry
    | primary => exact calm_entry
    | parenthesized => exact calm_entry
    | suffixed => exact calm_typeAt.bind fun _ => calm_entry.bind fun _ => calm_pure _
    | function => exact calm_typeAt.bind fun _ => calm_inline.bind fun _ => calm_pure _
    | parameter =>
      exact calm_textAt.bind fun _ => calm_typeAt.bind fun _ => calm_entry.bind fun _ =>
        calm_entry.bind fun _ => calm_pure _
    | object => exact calm_inline.bind fun _ => calm_pure _
    | member =>
      exact calm_textAt.bind fun _ => calm_entry.bind fun _ => calm_typeAt.bind fun _ => calm_pure _
    | operator => exact calm_entry.bind fun _ => calm_typeAt.bind fun _ => calm_pure _
    | query => exact calm_textAt.bind fun _ => Calm.bind (fun _ => trivial) fun _ => calm_pure _
    | keyword =>
      refine calm_entry.bind fun _ => ?_
      split
      · exact calm_pure _
      · exact calm_throw _
    | reference => exact calm_textAt.bind fun _ => calm_name.bind fun _ => calm_pure _
    | _ => exact calm_pure _

theorem assemble_overlong (t : Tree) (visited : List Visited) (nodes : Array Node) :
    Meets (assemble outsideBuilder t visited).run nodes (fun _ _ => ¬(t.label = some .number ∧ IsLong t.text))
      fun _ _ => t.label = some .number ∧ IsLong t.text := by
  by_cases number : t.label = some .number
  · unfold assemble
    rw [number]
    cases found : numberValue t.text with
    | none => exact ⟨rfl, numberValue_eq_none_iff.1 found⟩
    | some value =>
      refine meets_pure fun long => ?_
      rw [numberValue_eq_none_iff.2 long.2] at found
      cases found
  · exact (calm_assemble number visited nodes).mono (fun _ _ _ long => number long.1) fun _ _ => False.elim

mutual

/-- Making something from a tree fails just for a whole number with too many digits. -/
theorem visit_overlong (t : Tree) (nodes : Array Node) : Meets (visit outsideBuilder t).run nodes
    (fun r _ => (∃ v, r = .ok v) → ¬t.IsOverlong) fun _ _ => t.IsOverlong := by
  match t with
  | .leaf label cs =>
    unfold visit
    refine (assemble_overlong (.leaf label cs) [] nodes).mono (fun _ _ short _ overlong => ?_) fun _ _ long => ?_
    · cases overlong with
      | here number long => exact short ⟨number, long⟩
      | inside mem _ => cases mem
    · exact .here long.1 long.2
  | .node label ts =>
    unfold visit
    rw [ExceptT.run_bind]
    refine meets_bind ((visitAll_overlong ts nodes).mono (fun _ _ h => h) fun _ _ ⟨t, mem, long⟩ => .inside mem long) ?_
    intro r nodes' short
    cases r with
    | error e => exact meets_pure fun ⟨_, eq⟩ => by cases eq
    | ok visited =>
      refine (assemble_overlong (.node label ts) visited nodes').mono (fun _ _ short' _ overlong => ?_)
        fun _ _ long => ?_
      · cases overlong with
        | here number long => exact short' ⟨number, long⟩
        | inside mem long => exact short ⟨visited, rfl⟩ _ mem long
      · exact .here long.1 long.2

theorem visitAll_overlong (ts : List Tree) (nodes : Array Node) : Meets (visitAll outsideBuilder ts).run nodes
    (fun r _ => (∃ v, r = .ok v) → ∀ t ∈ ts, ¬t.IsOverlong) fun _ _ => ∃ t ∈ ts, t.IsOverlong := by
  match ts with
  | [] => exact fun _ t mem => (List.not_mem_nil mem).elim
  | t :: ts =>
    unfold visitAll
    rw [ExceptT.run_bind]
    refine meets_bind ((visit_overlong t nodes).mono (fun _ _ h => h) fun _ _ here => ⟨t, List.mem_cons_self, here⟩) ?_
    intro r nodes' short
    cases r with
    | error e => exact meets_pure fun ⟨_, eq⟩ => by cases eq
    | ok v =>
      dsimp only
      rw [ExceptT.run_bind]
      refine meets_bind ((visitAll_overlong ts nodes').mono (fun _ _ h => h)
        fun _ _ ⟨t, mem, long⟩ => ⟨t, List.mem_cons_of_mem _ mem, long⟩) ?_
      intro r nodes'' short'
      cases r with
      | error e => exact meets_pure fun ⟨_, eq⟩ => by cases eq
      | ok vs => exact meets_pure fun _ => List.forall_mem_cons.2 ⟨short ⟨v, rfl⟩, short' ⟨vs, rfl⟩⟩

end

/-! ## Every text -/

/-- The type that a text denotes by itself. -/
def typeOf (text : String) : Building Ty :=
  match parse text with
  | .ok e => build outsideBuilder e
  | .error position => throw (.typeSyntax "" text position)

/-- The type that is made from the tree of a text, if its parts are where they are looked for. -/
def typeOfTree (text : String) : ExceptT Misfit Building Ty :=
  match Tree.parse text with
  | .ok t => do
    match ← visit outsideBuilder t with
    | .type type => return type
    | _ => throw .otherKind
  | .error position => liftM (throw (.typeSyntax "" text position) : Building Ty)

/-- The text has a tree, with a whole number of too many digits in it. -/
def IsOverlong (text : String) : Prop := ∃ t, Tree.parse text = .ok t ∧ t.IsOverlong

/-- A text is refused at a position within it, and nothing is added. -/
def IsRefused (text : String) (nodes : Array Node) : Prop :=
  ∃ position ≤ (Text.points text).length, typeOf text nodes = .error (.typeSyntax "" text position) nodes

/-- A text is accepted as a type. From the type all nodes that are added are found, and their numbers are in order. -/
def IsNumbered (text : String) (nodes : Array Node) : Prop :=
  ∃ (t : Ty) (added : List Node), typeOf text nodes = .ok t (nodes ++ added) ∧
    Numbered (Document.holding (nodes ++ added)).store t.inlines nodes.size (nodes.size + added.length)

/-- By position, the same type is made from a tree: every part is where it is looked for. -/
theorem run_typeOfTree (text : String) : (typeOfTree text).run = Except.ok <$> typeOf text := by
  unfold typeOfTree typeOf
  rcases visit_parse outsideBuilder text with ⟨position, refused, refused'⟩ | ⟨t, e, parsed, parsed', means⟩
  · rw [refused, refused']
    rfl
  · rw [parsed, parsed']
    unfold Means at means
    simp [means]

theorem at_holding (nodes : Array Node) (added : List Node) :
    (Document.holding (nodes ++ added)).store.At nodes.size added := by
  intro i lt
  show (nodes ++ added)[nodes.size + i]?.getD default = added[i]
  rw [← Array.getElem?_toList, Array.toList_appendList, ← Array.length_toList,
    List.getElem?_append_right (Nat.le_add_right ..), Nat.add_sub_cancel_left, List.getElem?_eq_getElem lt]
  rfl

/-- What is built from an expression, and its tree: building fails just for a whole number with too many digits in the
tree, and else all nodes that are added have numbers in order. -/
theorem build_accounted {t : Tree} {e : Expr} (means : Means outsideBuilder t e) (nodes : Array Node) :
    (t.IsOverlong ∧ ∃ added : List Node, build outsideBuilder e nodes = .error .longNumber (nodes ++ added)) ∨
    (¬t.IsOverlong ∧ ∃ (type : Ty) (added : List Node),
      build outsideBuilder e nodes = .ok type (nodes ++ added) ∧ InOrder nodes.size added type.inlines) := by
  have nothing : InOrder nodes.size [] [] := fun s _ => numbered_nil s _
  have outcome := build_numbers e nodes [] nothing
  have fails := visit_overlong t nodes
  have lifted : (visit outsideBuilder t).run = build outsideBuilder e >>= fun type => pure (.ok (.type type)) := by
    rw [means]
    simp [Except.map]
  rw [lifted] at fails
  cases built : build outsideBuilder e nodes with
  | ok type nodes' =>
    obtain ⟨added, rfl, ordered⟩ := outcome.of_ok built
    exact .inr ⟨fails.of_ok (bind_of_ok built) ⟨_, rfl⟩, type, added, rfl, ordered⟩
  | error f nodes' =>
    obtain ⟨rfl, added, rfl⟩ := outcome.of_error built
    exact .inl ⟨fails.of_error (bind_of_error built), added, rfl⟩

/-- Every text is accounted for. The type is made from the tree of the text, every part of which is where it is
looked for. A text with a whole number of too many digits fails for it, and nodes are only added. Every other text is
refused at a position within it, and nothing is added, or it is a type, from which all nodes that are added are found,
each once, and which numbers every inline declaration behind those inside it. -/
theorem typeOf_accounted (text : String) (nodes : Array Node) :
    (typeOfTree text).run = Except.ok <$> typeOf text ∧
    (IsOverlong text → ∃ added : List Node, typeOf text nodes = .error .longNumber (nodes ++ added)) ∧
    (¬IsOverlong text → IsRefused text nodes ∨ IsNumbered text nodes) := by
  refine ⟨run_typeOfTree text, ?_⟩
  rcases visit_parse outsideBuilder text with ⟨position, refused, refused'⟩ | ⟨t, e, parsed, parsed', means⟩
  · refine ⟨?_, fun _ => .inl ⟨position, le_of_parse_error refused', ?_⟩⟩
    · rintro ⟨t, parsed, -⟩
      rw [refused] at parsed
      cases parsed
    · unfold typeOf
      rw [refused']
      rfl
  · have whole : typeOf text = build outsideBuilder e := by
      unfold typeOf
      rw [parsed']
    have overlong : IsOverlong text ↔ t.IsOverlong := by
      constructor
      · rintro ⟨u, parsed'', long⟩
        rw [parsed] at parsed''
        cases parsed''
        exact long
      · exact fun long => ⟨t, parsed, long⟩
    rw [overlong]
    unfold IsNumbered
    rw [whole]
    rcases build_accounted means nodes with ⟨long, fails⟩ | ⟨short, type, added, built, ordered⟩
    · exact ⟨fun _ => fails, fun short => absurd long short⟩
    · exact ⟨fun long => absurd long short, fun _ => .inr ⟨type, added, built, ordered _ (at_holding nodes added)⟩⟩

/-- A whole number with one digit more than whole numbers are read from is neither refused nor a type. -/
theorem not_accounted_long : ¬∀ (text : String) (nodes : Array Node), IsRefused text nodes ∨ IsNumbered text nodes := by
  intro all
  obtain ⟨text, number⟩ : ∃ text, parse text = .ok .longNumber := by
    have written : Written (fun _ => false) _ _ _ := written_int ((10 ^ Decimal.digitLimit : Nat) : Int)
    refine ⟨_, (written.whole.parse written.begins).trans ?_⟩
    rw [integer, if_neg]
    rw [Int.natAbs_natCast]
    exact fun few => absurd ((Nat.length_toDigits_le_iff (by decide) (by decide)).1 few) (Nat.lt_irrefl _)
  have failed : typeOf text #[] = .error .longNumber #[] := by
    unfold typeOf
    rw [number]
    rfl
  rcases all text #[] with ⟨position, -, refused⟩ | ⟨t, added, accepted, -⟩
  · rw [failed] at refused
    cases refused
  · rw [failed] at accepted
    cases accepted

end TypeExpr

end DocTree
