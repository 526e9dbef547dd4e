/-!
# What running a computation comes to

* `Meets x s Q R` : started in `s`, the computation `x` ends in a result and a state that satisfy
  `Q`, or in an error and a state that satisfy `R`; `Meets.mono`, `Meets.and`;
* `meets_pure`, `meets_bind`, … : one lemma for each way to build a computation; `bind_ok` : a sequence that ends well;
* `Succeeds x s` : started in `s`, the computation `x` ends well; `succeeds_bind_iff`;
* `EndsWell x P` : whether it does depends on `P` alone; `EndsWell.bind`, …;
* `Parallel S R x y` : started in states related by `S`, two computations end alike; `parallel_bind`, … .
-/

namespace DocTree

/-- Started in `s`, a computation ends well within `Q`, or fails within `R`. -/
def Meets {ε σ α : Type} (x : EStateM ε σ α) (s : σ) (Q : α → σ → Prop) (R : ε → σ → Prop) : Prop :=
  match x s with
  | .ok a s' => Q a s'
  | .error e s' => R e s'

section

variable {ε σ α β : Type} {Q Q' : α → σ → Prop} {R R' : ε → σ → Prop} {s : σ}

theorem Meets.mono {x : EStateM ε σ α} (h : Meets x s Q R) (hQ : ∀ a s', Q a s' → Q' a s')
    (hR : ∀ e s', R e s' → R' e s') : Meets x s Q' R' := by
  unfold Meets at h ⊢
  split
  · rename_i eq
    rw [eq] at h
    exact hQ _ _ h
  · rename_i eq
    rw [eq] at h
    exact hR _ _ h

theorem Meets.and {x : EStateM ε σ α} (h : Meets x s Q R) (h' : Meets x s Q' R') :
    Meets x s (fun a s => Q a s ∧ Q' a s) fun e s => R e s ∧ R' e s := by
  unfold Meets at h h' ⊢
  cases eq : x s with
  | ok a s' =>
    rw [eq] at h h'
    exact ⟨h, h'⟩
  | error e s' =>
    rw [eq] at h h'
    exact ⟨h, h'⟩

theorem Meets.of_ok {x : EStateM ε σ α} (h : Meets x s Q R) {a : α} {s' : σ} (eq : x s = .ok a s') :
    Q a s' := by
  unfold Meets at h
  rwa [eq] at h

theorem Meets.ran {x : EStateM ε σ α} (h : Meets x s Q R) : Meets x s (fun a s' => x s = .ok a s' ∧ Q a s') R := by
  unfold Meets at h ⊢
  cases eq : x s with
  | ok a s' =>
    rw [eq] at h
    exact ⟨rfl, h⟩
  | error e s' => rwa [eq] at h

theorem Meets.of_error {x : EStateM ε σ α} (h : Meets x s Q R) {e : ε} {s' : σ}
    (eq : x s = .error e s') : R e s' := by
  unfold Meets at h
  rwa [eq] at h

theorem meets_pure {a : α} (h : Q a s) : Meets (pure a) s Q R := h

theorem meets_bind {x : EStateM ε σ β} {f : β → EStateM ε σ α} {P : β → σ → Prop}
    (h : Meets x s P R) (h' : ∀ b s', P b s' → Meets (f b) s' Q R) : Meets (x >>= f) s Q R := by
  unfold Meets at h ⊢
  show match EStateM.bind x f s with | .ok a s' => Q a s' | .error e s' => R e s'
  unfold EStateM.bind
  split at h
  · rename_i eq
    rw [eq]
    exact h' _ _ h
  · rename_i eq
    rw [eq]
    exact h

theorem meets_throw {e : ε} (h : R e s) : Meets (throw e : EStateM ε σ α) s Q R := h

theorem meets_get {Q : σ → σ → Prop} (h : Q s s) : Meets (get : EStateM ε σ σ) s Q R := h

theorem meets_set {Q : PUnit → σ → Prop} {s' : σ} (h : Q ⟨⟩ s') :
    Meets (set s' : EStateM ε σ PUnit) s Q R := h

theorem meets_modify {Q : PUnit → σ → Prop} {f : σ → σ} (h : Q ⟨⟩ (f s)) :
    Meets (modify f : EStateM ε σ PUnit) s Q R := h

theorem meets_modifyGet {f : σ → α × σ} (h : Q (f s).1 (f s).2) :
    Meets (modifyGet f : EStateM ε σ α) s Q R := h

/-- A sequence that ends well consists of steps that do. -/
theorem bind_ok {x : EStateM ε σ α} {f : α → EStateM ε σ β} {s s' : σ} {b : β} (h : (x >>= f) s = .ok b s') :
    ∃ a u, x s = .ok a u ∧ f a u = .ok b s' := by
  have h : EStateM.bind x f s = .ok b s' := h
  unfold EStateM.bind at h
  split at h
  · rename_i a u eq
    exact ⟨a, u, eq, h⟩
  · cases h

theorem bind_of_ok {x : EStateM ε σ α} {f : α → EStateM ε σ β} {s s' : σ} {a : α}
    (h : x s = .ok a s') : (x >>= f) s = f a s' := by
  show EStateM.bind x f s = _
  unfold EStateM.bind
  rw [h]

theorem bind_of_error {x : EStateM ε σ α} {f : α → EStateM ε σ β} {s s' : σ} {e : ε}
    (h : x s = .error e s') : (x >>= f) s = .error e s' := by
  show EStateM.bind x f s = _
  unfold EStateM.bind
  rw [h]

end

/-! ## Computations that end well -/

/-- Started in `s`, a computation ends well. -/
def Succeeds {ε σ α : Type} (x : EStateM ε σ α) (s : σ) : Prop := ∃ a s', x s = .ok a s'

/-- Wherever it is started, a computation ends well just if `P` holds. -/
def EndsWell {ε σ α : Type} (x : EStateM ε σ α) (P : Prop) : Prop := ∀ s, Succeeds x s ↔ P

section

variable {ε σ α β : Type} {x : EStateM ε σ α} {f : α → EStateM ε σ β} {s s' : σ} {a : α} {P Q : Prop}

theorem succeeds_bind : Succeeds (x >>= f) s ↔ ∃ a u, x s = .ok a u ∧ Succeeds (f a) u := by
  constructor
  · rintro ⟨b, s', eq⟩
    obtain ⟨a, u, first, second⟩ := bind_ok eq
    exact ⟨a, u, first, b, s', second⟩
  · rintro ⟨a, u, first, b, s', second⟩
    exact ⟨b, s', (bind_of_ok first).trans second⟩

theorem succeeds_bind_of_ok (h : x s = .ok a s') : Succeeds (x >>= f) s ↔ Succeeds (f a) s' := by
  unfold Succeeds
  rw [bind_of_ok h]

/-- A sequence of which the first step ends well just if `P` holds, and all that follows just if `Q` holds. -/
theorem succeeds_bind_iff (first : Succeeds x s ↔ P) (rest : ∀ a u, x s = .ok a u → (Succeeds (f a) u ↔ Q)) :
    Succeeds (x >>= f) s ↔ P ∧ Q := by
  rw [succeeds_bind]
  constructor
  · rintro ⟨a, u, eq, later⟩
    exact ⟨first.1 ⟨a, u, eq⟩, (rest a u eq).1 later⟩
  · rintro ⟨here, later⟩
    obtain ⟨a, u, eq⟩ := first.2 here
    exact ⟨a, u, eq, (rest a u eq).2 later⟩

theorem EndsWell.iff (h : EndsWell x P) (same : P ↔ Q) : EndsWell x Q := fun s => (h s).trans same

theorem endsWell_pure (a : α) : EndsWell (pure a : EStateM ε σ α) True := fun s => ⟨fun _ => trivial, fun _ => ⟨a, s, rfl⟩⟩

theorem endsWell_pure_nil {γ : Type} {R : γ → Prop} (a : α) :
    EndsWell (pure a : EStateM ε σ α) (∀ c ∈ ([] : List γ), R c) :=
  (endsWell_pure a).iff (iff_of_true trivial (List.forall_mem_nil R))

theorem endsWell_throw (e : ε) : EndsWell (throw e : EStateM ε σ α) False := by
  refine fun s => ⟨?_, False.elim⟩
  rintro ⟨a, s', eq⟩
  cases eq

theorem endsWell_modify (f : σ → σ) : EndsWell (modify f : EStateM ε σ PUnit) True :=
  fun s => ⟨fun _ => trivial, fun _ => ⟨⟨⟩, f s, rfl⟩⟩

theorem endsWell_modifyGet (f : σ → α × σ) : EndsWell (modifyGet f : EStateM ε σ α) True :=
  fun s => ⟨fun _ => trivial, fun _ => ⟨(f s).1, (f s).2, rfl⟩⟩

theorem EndsWell.bind (h : EndsWell x P) (rest : ∀ a, EndsWell (f a) Q) : EndsWell (x >>= f) (P ∧ Q) :=
  fun s => succeeds_bind_iff (h s) fun a u _ => rest a u

end

/-! ## Two computations -/

/-- Started in related states, both computations end well, with related results, or both fail; their states are related
again. -/
def Parallel {ε σ τ α β : Type} (S : σ → τ → Prop) (R : α → β → Prop) (x : EStateM ε σ α) (y : EStateM ε τ β) : Prop :=
  ∀ s t, S s t →
    match x s, y t with
    | .ok a s', .ok b t' => R a b ∧ S s' t'
    | .error _ s', .error _ t' => S s' t'
    | _, _ => False

section

variable {ε σ τ α β α' β' : Type} {S : σ → τ → Prop} {R : α → β → Prop} {R' : α' → β' → Prop}

/-- What two computations that end alike come to. -/
theorem Parallel.outcome {x : EStateM ε σ α} {y : EStateM ε τ β} (h : Parallel S R x y) {s : σ} {t : τ} (same : S s t) :
    (∃ a s' b t', x s = .ok a s' ∧ y t = .ok b t' ∧ R a b ∧ S s' t') ∨
      ∃ e s' e' t', x s = .error e s' ∧ y t = .error e' t' ∧ S s' t' := by
  have h := h s t same
  cases eq : x s with
  | ok a s' =>
    cases eq' : y t with
    | ok b t' =>
      rw [eq, eq'] at h
      exact Or.inl ⟨a, s', b, t', rfl, rfl, h⟩
    | error e t' =>
      rw [eq, eq'] at h
      exact h.elim
  | error e s' =>
    cases eq' : y t with
    | ok b t' =>
      rw [eq, eq'] at h
      exact h.elim
    | error e' t' =>
      rw [eq, eq'] at h
      exact Or.inr ⟨e, s', e', t', rfl, rfl, h⟩

theorem parallel_pure {a : α} {b : β} (h : R a b) : Parallel S R (pure a : EStateM ε σ α) (pure b) :=
  fun _ _ same => ⟨h, same⟩

theorem parallel_throw {e e' : ε} : Parallel S R (throw e : EStateM ε σ α) (throw e' : EStateM ε τ β) :=
  fun _ _ same => same

theorem parallel_get : Parallel S S (get : EStateM ε σ σ) (get : EStateM ε τ τ) := fun _ _ same => ⟨same, same⟩

theorem parallel_modify {f : σ → σ} {g : τ → τ} (h : ∀ s t, S s t → S (f s) (g t)) :
    Parallel S (fun _ _ => True) (modify f : EStateM ε σ PUnit) (modify g : EStateM ε τ PUnit) :=
  fun s t same => ⟨trivial, h s t same⟩

theorem parallel_set {s' : σ} {t' : τ} (h : S s' t') :
    Parallel S (fun _ _ => True) (set s' : EStateM ε σ PUnit) (set t' : EStateM ε τ PUnit) :=
  fun _ _ _ => ⟨trivial, h⟩

theorem parallel_ite {c : Prop} [Decidable c] {x x' : EStateM ε σ α} {y y' : EStateM ε τ β} (h : Parallel S R x y)
    (h' : Parallel S R x' y') : Parallel S R (if c then x else x') (if c then y else y') := by
  split
  · exact h
  · exact h'

theorem parallel_bind {x : EStateM ε σ α} {y : EStateM ε τ β} {f : α → EStateM ε σ α'} {g : β → EStateM ε τ β'}
    (first : Parallel S R x y) (rest : ∀ a b, R a b → Parallel S R' (f a) (g b)) :
    Parallel S R' (x >>= f) (y >>= g) := by
  intro s t same
  show match EStateM.bind x f s, EStateM.bind y g t with
    | .ok a s', .ok b t' => R' a b ∧ S s' t'
    | .error _ s', .error _ t' => S s' t'
    | _, _ => False
  unfold EStateM.bind
  rcases first.outcome same with ⟨a, s', b, t', eq, eq', related, same'⟩ | ⟨e, s', e', t', eq, eq', same'⟩
  · rw [eq, eq']
    exact rest a b related s' t' same'
  · rw [eq, eq']
    exact same'

end

end DocTree
