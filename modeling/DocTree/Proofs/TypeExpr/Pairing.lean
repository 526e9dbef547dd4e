import DocTree.Proofs.TypeExpr.Tree
import Mathlib.Data.List.Forall2
import Mathlib.Data.List.TakeWhile
import Mathlib.Data.Option.Basic

/-!
# Two rules that read the same

* `Pairs M r r'` : on every text both rules fail or both read, they leave the same text and get stuck at the same
  places, and what they read is related by `M`;
* one lemma for each way to put rules together: `Pairs.bind`, `Pairs.choice`, `Pairs.opt`, `Pairs.many`, …;
* `Pairs.first`, `Pairs.spaced`, `Pairs.bracketed` : the parts of a tree, one by one, beside a rule that reads them.
-/

namespace DocTree.TypeExpr

namespace Rule

variable {α β γ δ : Type} {M : α → β → Prop} {N : γ → δ → Prop} {r q : Rule α} {r' q' : Rule β}
  {f : α → Rule γ} {f' : β → Rule δ}

/-- Two answers are alike, up to a relation on what was read. -/
inductive Alike (M : α → β → Prop) : Reply α → Reply β → Prop
  | stuck {trace : Place → Place} : Alike M ⟨none, trace⟩ ⟨none, trace⟩
  | read {a : α} {b : β} {rest : List Char} {trace : Place → Place} : M a b →
    Alike M ⟨some (a, rest), trace⟩ ⟨some (b, rest), trace⟩

def Pairs (M : α → β → Prop) (r : Rule α) (r' : Rule β) : Prop := ∀ cs, Alike M (r cs) (r' cs)

theorem Alike.refl (x : Reply α) : Alike Eq x x := by
  obtain ⟨result, trace⟩ := x
  cases result with
  | none => exact .stuck
  | some p => exact .read rfl

theorem Alike.mono {M' : α → β → Prop} {x : Reply α} {y : Reply β} (h : Alike M x y)
    (weaker : ∀ {a b}, M a b → M' a b) : Alike M' x y := by
  cases h with
  | stuck => exact .stuck
  | read related => exact .read (weaker related)

theorem pairs_refl (r : Rule α) : Pairs Eq r r := fun cs => .refl (r cs)

theorem Pairs.mono {M' : α → β → Prop} (h : Pairs M r r') (weaker : ∀ {a b}, M a b → M' a b) : Pairs M' r r' :=
  fun cs => (h cs).mono weaker

theorem pairs_fail : Pairs M fail fail := fun _ => .stuck

theorem pairs_pure {a : α} {b : β} (h : M a b) : Pairs M (pure a) (pure b) := fun _ => .read h

/-! ## One behind the other -/

theorem Pairs.bind (first : Pairs M r r') (more : ∀ {a b}, M a b → Pairs N (f a) (f' b)) :
    Pairs N (r >>= f) (r' >>= f') := by
  intro cs
  show Alike N (r.andThen f cs) (r'.andThen f' cs)
  have answers := first cs
  unfold andThen
  generalize r cs = x at answers ⊢
  generalize r' cs = y at answers ⊢
  cases answers with
  | stuck => exact .stuck
  | @read a b rest trace related =>
    have answers := more related rest
    dsimp only
    generalize f a rest = u at answers ⊢
    generalize f' b rest = v at answers ⊢
    cases answers with
    | stuck => exact .stuck
    | read related => exact .read related

theorem bind_bind (r : Rule α) (f : α → Rule β) (g : β → Rule γ) : (r >>= f) >>= g = r >>= fun a => f a >>= g := by
  funext cs
  show (r.andThen f).andThen g cs = r.andThen (fun a => (f a).andThen g) cs
  unfold andThen
  generalize r cs = x
  obtain ⟨result, trace⟩ := x
  cases result with
  | none => rfl
  | some p =>
    dsimp only
    generalize f p.1 p.2 = y
    obtain ⟨result', trace'⟩ := y
    cases result' <;> rfl

theorem return_bind (a : α) (f : α → Rule β) : pure a >>= f = f a := rfl

theorem bind_return (r : Rule α) : r >>= pure = r := by
  funext cs
  show r.andThen succeed cs = r cs
  unfold andThen
  generalize r cs = x
  obtain ⟨result, trace⟩ := x
  cases result <;> rfl

theorem Pairs.into {P : γ → β → Prop} {g : α → γ} (h : Pairs M r r') (related : ∀ {a b}, M a b → P (g a) b) :
    Pairs P (do return g (← r)) r' := by
  rw [← bind_return r']
  exact h.bind fun here => pairs_pure (related here)

theorem Pairs.onto {P : α → δ → Prop} {g : β → δ} (h : Pairs M r r') (related : ∀ {a b}, M a b → P a (g b)) :
    Pairs P r (do return g (← r')) := by
  rw [← bind_return r]
  exact h.bind fun here => pairs_pure (related here)

/-! ## Choices, options and repetitions -/

theorem Pairs.noting (isNamed : Bool) (h : Pairs M r r') : Pairs M (noting isNamed r) (noting isNamed r') := by
  intro cs
  have answers := h cs
  unfold Rule.noting
  generalize r cs = x at answers ⊢
  generalize r' cs = y at answers ⊢
  cases answers with
  | stuck => exact .stuck
  | read related => exact .read related

theorem Pairs.named (h : Pairs M r r') : Pairs M r.named r'.named := h.noting true

theorem Pairs.orElse (h : Pairs M r r') (h' : Pairs M q q') : Pairs M (r.orElse q) (r'.orElse q') := by
  intro cs
  have answers := h cs
  have answers' := h' cs
  unfold Rule.orElse
  generalize r cs = x at answers ⊢
  generalize r' cs = y at answers ⊢
  cases answers with
  | stuck =>
    dsimp only
    generalize q cs = u at answers' ⊢
    generalize q' cs = v at answers' ⊢
    cases answers' with
    | stuck => exact .stuck
    | read related => exact .read related
  | read related => exact .read related

theorem Pairs.choice {rs : List (Rule α)} {rs' : List (Rule β)} (h : List.Forall₂ (Pairs M) rs rs') :
    Pairs M (choice rs) (choice rs') := by
  induction h with
  | nil => exact pairs_fail
  | cons first _ ih => exact first.orElse ih

theorem orElse_fail (r : Rule α) : r.orElse fail = r := by
  funext cs
  unfold orElse fail
  generalize r cs = x
  obtain ⟨result, trace⟩ := x
  cases result <;> rfl

theorem Pairs.opt (h : Pairs M r r') : Pairs (Option.Rel M) (opt r) (opt r') := by
  intro cs
  have answers := h cs
  unfold Rule.opt
  split
  · exact .read .none
  · generalize r cs = x at answers ⊢
    generalize r' cs = y at answers ⊢
    cases answers with
    | stuck => exact .read .none
    | read related => exact .read (.some related)

theorem Pairs.upTo (h : Pairs M r r') (n : Nat) : Pairs (List.Forall₂ M) (upTo r n) (upTo r' n) := by
  induction n with
  | zero => exact pairs_pure .nil
  | succ n ih =>
    intro cs
    have answers := h cs
    unfold Rule.upTo
    split
    · exact .read .nil
    · generalize r cs = x at answers ⊢
      generalize r' cs = y at answers ⊢
      cases answers with
      | stuck => exact .read .nil
      | @read a b rest trace related =>
        have more := ih rest
        dsimp only
        split
        · exact .read (.cons related .nil)
        · generalize Rule.upTo r n rest = u at more ⊢
          generalize Rule.upTo r' n rest = v at more ⊢
          cases more with
          | stuck => exact .stuck
          | read all => exact .read (.cons related all)

theorem Pairs.many (h : Pairs M r r') : Pairs (List.Forall₂ M) (many r) (many r') := fun cs => h.upTo cs.length cs

/-! ## Characters -/

theorem pairs_one (p : Char → Bool) : Pairs (fun c d => c = d ∧ p c = true) (one p) (one p) := by
  intro cs
  unfold one
  cases cs with
  | nil => exact .stuck
  | cons c cs =>
    dsimp only
    split
    · rename_i here
      exact .read ⟨rfl, here⟩
    · exact .stuck

theorem pairs_run (p : Char → Bool) : Pairs (fun cs ds => cs = ds ∧ ∀ c ∈ cs, p c = true) (run p) (run p) :=
  fun _ => .read ⟨rfl, fun _ mem => List.mem_takeWhile_imp mem⟩

end Rule

/-! ## Trees -/

open Rule

variable {α β : Type} {M : Tree → α → Prop} {N : List Tree → β → Prop} {p : Rule Tree} {ps : List (Rule Tree)}
  {r : Rule α} {f : α → Rule β} {label : Option Label}

theorem Rule.Pairs.first (h : Pairs M p r)
    (more : ∀ {t a}, M t a → Pairs (fun ts b => N (t :: ts) b) (Concrete.series ps) (f a)) :
    Pairs N (Concrete.series (p :: ps)) (r >>= f) :=
  h.bind fun here => (more here).into fun related => related

theorem pairs_done {b : β} (h : N [] b) : Pairs N (Concrete.series []) (pure b) := pairs_pure h

theorem Rule.Pairs.parts {M : Tree → β → Prop} {r : Rule β}
    (h : Pairs (fun ts b => M (.node label ts) b) (Concrete.series ps) r) : Pairs M (Concrete.parts label ps) r :=
  h.into fun related => related

theorem Rule.Pairs.oneOf {rs : List (Rule Tree)} {rs' : List (Rule α)}
    (h : List.Forall₂ (Pairs fun t a => M (.node label [t]) a) rs rs') :
    Pairs M (Concrete.oneOf label rs) (Rule.choice rs') := (Pairs.choice h).into fun related => related

theorem Rule.Pairs.perhaps (h : Pairs M p r) :
    Pairs (fun t o => ∃ o', t = .node none o'.toList ∧ Option.Rel M o' o) (Concrete.perhaps p) (Rule.opt r) :=
  h.opt.into fun related => ⟨_, rfl, related⟩

theorem Rule.Pairs.repeated (h : Pairs M p r) :
    Pairs (fun t as => ∃ ts, t = .node none ts ∧ List.Forall₂ M ts as) (Concrete.repeated p) (Rule.many r) :=
  h.many.into fun related => ⟨_, rfl, related⟩

theorem pairs_literal (label : Option Label) (w : String) :
    Pairs (fun t _ => t = .leaf label w.toList) (Concrete.literal label w) (word w) := by
  unfold Concrete.literal Concrete.leaf
  rw [bind_bind]
  exact (pairs_refl (word w)).into fun _ => rfl

theorem pairs_blanks : Pairs (fun t _ => ∃ cs, t = Tree.gap cs) Concrete.blanks Grammar.blanks :=
  ((pairs_refl (run Text.isBlank)).bind fun _ => pairs_pure ⟨_, rfl⟩).named

/-- A word between blanks, and what follows. -/
theorem Rule.Pairs.spaced {w : String} {r : Rule β}
    (more : ∀ cs ds, Pairs (fun ts b => N (.gap cs :: .word w.toList :: .gap ds :: ts) b) (Concrete.series ps) r) :
    Pairs N (Concrete.series (Concrete.blanks :: Concrete.literal none w :: Concrete.blanks :: ps))
      (Grammar.spaced w >>= fun _ => r) := by
  unfold Grammar.spaced
  rw [bind_bind]
  refine pairs_blanks.first ?_
  rintro _ _ ⟨cs, rfl⟩
  rw [bind_bind]
  refine (pairs_literal none w).first ?_
  rintro _ _ rfl
  refine pairs_blanks.first ?_
  rintro _ _ ⟨ds, rfl⟩
  exact more cs ds

/-- Something between brackets, and what follows. -/
theorem Rule.Pairs.bracketed {left right : String} (h : Pairs M p r)
    (more : ∀ cs ds {t a}, M t a →
      Pairs (fun ts b => N (.word left.toList :: .gap cs :: t :: .gap ds :: .word right.toList :: ts) b)
        (Concrete.series ps) (f a)) :
    Pairs N (Concrete.series
      (Concrete.literal none left :: Concrete.blanks :: p :: Concrete.blanks :: Concrete.literal none right :: ps))
      (do
        word left
        Grammar.blanks
        let a ← r
        Grammar.blanks
        word right
        f a) := by
  refine (pairs_literal none left).first ?_
  rintro _ _ rfl
  refine pairs_blanks.first ?_
  rintro _ _ ⟨cs, rfl⟩
  refine h.first fun {t a} here => ?_
  refine pairs_blanks.first ?_
  rintro _ _ ⟨ds, rfl⟩
  refine (pairs_literal none right).first ?_
  rintro _ _ rfl
  exact more cs ds here

end DocTree.TypeExpr
