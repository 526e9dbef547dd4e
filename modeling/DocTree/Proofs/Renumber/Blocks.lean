import Mathlib.Algebra.BigOperators.Group.List.Basic
import Mathlib.Algebra.GroupWithZero.Nat
import Mathlib.Logic.Equiv.Basic

/-!
# Blocks one behind the other

What is read off one symbol takes up a block of numbers. In another order, the blocks are the same, and stand elsewhere.

* `starts len low xs` : where the blocks of `xs` start, laid one behind the other from `low` on;
* `getElem?_of_mem_starts` : what stands in a block; `Moves.getElem?` : it moves with its block;
* `Moves σ len low xs ys` : a permutation of all numbers that moves the blocks of `xs` to where they stand in the order
  of `ys`; `exists_moves` : there is one.
-/

namespace DocTree

variable {α β : Type} {len : α → Nat} {low : Nat} {xs ys : List α} {x : α} {o : Nat}

/-- Where blocks of given lengths start, laid one behind the other. -/
def starts (len : α → Nat) : Nat → List α → List (α × Nat)
  | _, [] => []
  | low, x :: xs => (x, low) :: starts len (low + len x) xs

theorem map_fst_starts (len : α → Nat) (low : Nat) (xs : List α) : (starts len low xs).map Prod.fst = xs := by
  induction xs generalizing low with
  | nil => rfl
  | cons x xs ih => rw [starts, List.map_cons, ih]

theorem mem_of_mem_starts (mem : (x, o) ∈ starts len low xs) : x ∈ xs := by
  rw [← map_fst_starts len low xs]
  exact List.mem_map_of_mem mem

theorem starts_eq_map {g : α → Nat} (numbers : (starts len low xs).map Prod.snd = xs.map g) :
    starts len low xs = xs.map fun x => (x, g x) := by
  induction xs generalizing low with
  | nil => rfl
  | cons x xs ih =>
    rw [starts, List.map_cons, List.map_cons, List.cons.injEq] at numbers
    obtain ⟨here, later⟩ := numbers
    rw [starts, List.map_cons, ih later, ← here]

theorem map_snd_starts_one (low : Nat) (xs : List α) :
    (starts (fun _ => 1) low xs).map Prod.snd = List.range' low xs.length := by
  induction xs generalizing low with
  | nil => rfl
  | cons x xs ih => rw [starts, List.map_cons, ih, List.length_cons, List.range'_succ]

theorem starts_map (f : β → α) (len : α → Nat) (low : Nat) (xs : List β) :
    starts len low (xs.map f) = (starts (fun x => len (f x)) low xs).map fun e => (f e.1, e.2) := by
  induction xs generalizing low with
  | nil => rfl
  | cons x xs ih => rw [List.map_cons, starts, starts, List.map_cons, ih]

theorem starts_append (len : α → Nat) (low : Nat) (xs ys : List α) :
    starts len low (xs ++ ys) = starts len low xs ++ starts len (low + (xs.map len).sum) ys := by
  induction xs generalizing low with
  | nil => rfl
  | cons x xs ih =>
    rw [List.cons_append, starts, starts, ih, List.map_cons, List.sum_cons, List.cons_append, Nat.add_assoc]

theorem within_of_mem_starts (mem : (x, o) ∈ starts len low xs) : low ≤ o ∧ o + len x ≤ low + (xs.map len).sum := by
  induction xs generalizing low with
  | nil => cases mem
  | cons y ys ih =>
    rw [List.map_cons, List.sum_cons]
    rcases List.mem_cons.1 mem with same | later
    · cases same
      omega
    · have within := ih later
      omega

theorem exists_mem_starts {i : Nat} (above : low ≤ i) (below : i < low + (xs.map len).sum) :
    ∃ x o j, (x, o) ∈ starts len low xs ∧ j < len x ∧ i = o + j := by
  induction xs generalizing low with
  | nil =>
    rw [List.map_nil, List.sum_nil] at below
    omega
  | cons y ys ih =>
    rw [List.map_cons, List.sum_cons] at below
    by_cases here : i < low + len y
    · exact ⟨y, low, i - low, List.mem_cons_self, by omega, by omega⟩
    · obtain ⟨x, o, j, mem, lt, eq⟩ := ih (Nat.le_of_not_lt here) (by omega)
      exact ⟨x, o, j, List.mem_cons_of_mem _ mem, lt, eq⟩

/-- What stands in a block is what belongs there. -/
theorem getElem?_of_mem_starts {f : α → List β} {before : List β}
    (mem : (x, o) ∈ starts (fun x => (f x).length) before.length xs) {i : Nat} (lt : i < (f x).length) :
    (before ++ xs.flatMap f)[o + i]? = (f x)[i]? := by
  induction xs generalizing before with
  | nil => cases mem
  | cons y ys ih =>
    rw [List.flatMap_cons, ← List.append_assoc]
    rcases List.mem_cons.1 mem with same | later
    · cases same
      rw [List.getElem?_append_left (by rw [List.length_append]; omega), List.getElem?_append_right (Nat.le_add_right _ _),
        Nat.add_sub_cancel_left]
    · exact ih (by rwa [List.length_append])

theorem sum_map_length (f : α → List β) (xs : List α) : (xs.map fun x => (f x).length).sum = (xs.flatMap f).length :=
  List.length_flatMap.symm

/-- Two neighbouring blocks change places. -/
def swapBlocks (low a b : Nat) : Equiv.Perm Nat where
  toFun i := if i < low then i else if i < low + a then i + b else if i < low + a + b then i - a else i
  invFun i := if i < low then i else if i < low + b then i + a else if i < low + b + a then i - b else i
  left_inv i := by
    dsimp only
    split_ifs <;> omega
  right_inv i := by
    dsimp only
    split_ifs <;> omega

theorem swapBlocks_apply (low a b i : Nat) : swapBlocks low a b i =
    if i < low then i else if i < low + a then i + b else if i < low + a + b then i - a else i := rfl

/-- The numbers of blocks are moved to where the blocks stand in another order; all numbers outside stay. -/
structure Moves (σ : Equiv.Perm Nat) (len : α → Nat) (low : Nat) (xs ys : List α) : Prop where
  perm : xs.Perm ys
  outside : ∀ {i}, i < low ∨ low + (xs.map len).sum ≤ i → σ i = i
  moved : ∀ {x o'}, (x, o') ∈ starts len low ys → ∃ o, (x, o) ∈ starts len low xs ∧ ∀ i < len x, σ (o + i) = o' + i

namespace Moves

variable {σ τ : Equiv.Perm Nat} {zs : List α}

theorem sum_eq (h : Moves σ len low xs ys) : (ys.map len).sum = (xs.map len).sum := (h.perm.map len).sum_eq.symm

theorem exists_block (h : Moves σ len low xs ys) {i : Nat} (above : low ≤ i) (below : i < low + (xs.map len).sum) :
    ∃ x o o' j, (x, o) ∈ starts len low xs ∧ (x, o') ∈ starts len low ys ∧ j < len x ∧ i = o + j ∧ σ i = o' + j := by
  have inside : low ≤ σ i ∧ σ i < low + (ys.map len).sum := by
    rw [h.sum_eq]
    by_contra far
    have stays : σ (σ i) = σ i := h.outside (by omega)
    have same := σ.injective stays
    omega
  obtain ⟨x, o', j, mem', lt, eq'⟩ := exists_mem_starts inside.1 inside.2
  obtain ⟨o, mem, shift⟩ := h.moved mem'
  exact ⟨x, o, o', j, mem, mem', lt, σ.injective (eq'.trans (shift j lt).symm), eq'⟩

theorem getElem? {f : α → List β} {before : List β} (h : Moves σ (fun x => (f x).length) before.length xs ys) {γ : Type}
    (g : β → γ) {before' : List γ} (length : before'.length = before.length) {i : Nat} (above : before.length ≤ i) :
    (before' ++ ys.flatMap fun x => (f x).map g)[σ i]? = ((before ++ xs.flatMap f)[i]?).map g := by
  by_cases below : i < before.length + (xs.map fun x => (f x).length).sum
  · obtain ⟨x, o, o', j, mem, mem', lt, rfl, toward⟩ := h.exists_block above below
    rw [toward, getElem?_of_mem_starts mem lt, getElem?_of_mem_starts (by simpa [length] using mem') (by simpa using lt),
      List.getElem?_map]
  · have total : (ys.map fun x => (f x).length).sum = (xs.map fun x => (f x).length).sum := h.sum_eq
    rw [h.outside (Or.inr (Nat.le_of_not_lt below)), List.getElem?_eq_none, List.getElem?_eq_none, Option.map_none]
    · rw [List.length_append, ← sum_map_length]
      omega
    · rw [List.length_append, ← sum_map_length, length]
      simp only [List.length_map, total]
      omega

theorem refl (len : α → Nat) (low : Nat) (xs : List α) : Moves (.refl _) len low xs xs :=
  ⟨.refl _, fun _ => rfl, fun {_ o'} mem => ⟨o', mem, fun _ _ => rfl⟩⟩

theorem cons (h : Moves σ len (low + len x) xs ys) : Moves σ len low (x :: xs) (x :: ys) := by
  refine ⟨h.perm.cons x, fun {i} far => h.outside ?_, fun {y o'} mem => ?_⟩
  · rw [List.map_cons, List.sum_cons] at far
    omega
  · rcases List.mem_cons.1 mem with same | later
    · cases same
      exact ⟨low, List.mem_cons_self, fun i lt => h.outside (Or.inl (by omega))⟩
    · obtain ⟨o, mem, shift⟩ := h.moved later
      exact ⟨o, List.mem_cons_of_mem _ mem, shift⟩

theorem swap (len : α → Nat) (low : Nat) (x y : α) (xs : List α) :
    Moves (swapBlocks low (len x) (len y)) len low (x :: y :: xs) (y :: x :: xs) := by
  refine ⟨.swap y x xs, fun {i} far => ?_, fun {z o'} mem => ?_⟩
  · rw [List.map_cons, List.map_cons, List.sum_cons, List.sum_cons] at far
    rw [swapBlocks_apply]
    split_ifs <;> omega
  · rcases List.mem_cons.1 mem with same | later
    · cases same
      refine ⟨low + len x, List.mem_cons_of_mem _ List.mem_cons_self, fun i lt => ?_⟩
      rw [swapBlocks_apply]
      split_ifs <;> omega
    · rcases List.mem_cons.1 later with same | later
      · cases same
        refine ⟨low, List.mem_cons_self, fun i lt => ?_⟩
        rw [swapBlocks_apply]
        split_ifs <;> omega
      · rw [Nat.add_right_comm] at later
        refine ⟨o', List.mem_cons_of_mem _ (List.mem_cons_of_mem _ later), fun i lt => ?_⟩
        have far := (within_of_mem_starts later).1
        rw [swapBlocks_apply]
        split_ifs <;> omega

theorem trans (h : Moves σ len low xs ys) (h' : Moves τ len low ys zs) : Moves (σ.trans τ) len low xs zs := by
  refine ⟨h.perm.trans h'.perm, fun {i} far => ?_, fun {x o''} mem => ?_⟩
  · rw [Equiv.trans_apply, h.outside far, h'.outside (h.sum_eq ▸ far)]
  · obtain ⟨o', mem', shift'⟩ := h'.moved mem
    obtain ⟨o, mem, shift⟩ := h.moved mem'
    exact ⟨o, mem, fun i lt => by rw [Equiv.trans_apply, shift i lt, shift' i lt]⟩

end Moves

/-- In another order, the blocks are moved by a permutation. -/
theorem exists_moves (len : α → Nat) (perm : xs.Perm ys) (low : Nat) : ∃ σ, Moves σ len low xs ys := by
  induction perm generalizing low with
  | nil => exact ⟨_, .refl len low []⟩
  | cons x _ ih =>
    obtain ⟨σ, moves⟩ := ih (low + len x)
    exact ⟨σ, moves.cons⟩
  | swap y x xs => exact ⟨_, .swap len low x y xs⟩
  | trans _ _ ih ih' =>
    obtain ⟨σ, moves⟩ := ih low
    obtain ⟨τ, moves'⟩ := ih' low
    exact ⟨_, moves.trans moves'⟩

end DocTree
