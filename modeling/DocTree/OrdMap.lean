/-!
# Insertion-ordered maps

A finite map that remembers the order in which its keys first came. Writing a key that is present
keeps its place; erasing it and writing it again moves it to the end. Keys are distinct by
construction.

The view is `find?`, with one lemma per operation: `find?_empty`, `find?_insert`, `find?_erase`,
`find?_mapValues`; `find?_eq_some_iff` relates it to the entries; `entries_foldl_erase` says what is
left, in order, of a map that forgets many keys.
-/

namespace DocTree

/-- A finite map in insertion order. -/
structure OrdMap (α : Type u) (β : Type v) where
  entries : List (α × β)
  distinct : (entries.map Prod.fst).Nodup

namespace OrdMap

variable {α : Type u} {β : Type v} [DecidableEq α]

/-- The map without entries. -/
def empty : OrdMap α β := ⟨[], List.nodup_nil⟩

instance : Inhabited (OrdMap α β) := ⟨empty⟩

/-- The first value listed under a key. -/
def lookup (k : α) : List (α × β) → Option β
  | [] => none
  | e :: es => if e.1 = k then some e.2 else lookup k es

def find? (m : OrdMap α β) (k : α) : Option β := lookup k m.entries

def keys (m : OrdMap α β) : List α := m.entries.map Prod.fst

def values (m : OrdMap α β) : List β := m.entries.map Prod.snd

/-- The number of keys. -/
def size (m : OrdMap α β) : Nat := m.entries.length

/-- Whether a key is present. -/
def contains (m : OrdMap α β) (k : α) : Bool := decide (k ∈ m.keys)

def replace (k : α) (v : β) : List (α × β) → List (α × β)
  | [] => []
  | e :: es => (if e.1 = k then (k, v) else e) :: replace k v es

theorem map_fst_replace (k : α) (v : β) (es : List (α × β)) :
    (replace k v es).map Prod.fst = es.map Prod.fst := by
  induction es with
  | nil => rfl
  | cons e es ih =>
    simp only [replace, List.map_cons, ih, List.cons.injEq, and_true]
    split <;> simp_all

omit [DecidableEq α] in
theorem nodup_append_key {k : α} {v : β} {es : List (α × β)} (distinct : (es.map Prod.fst).Nodup)
    (fresh : k ∉ es.map Prod.fst) : ((es ++ [(k, v)]).map Prod.fst).Nodup := by
  rw [List.map_append, List.nodup_append]
  exact ⟨distinct, by simp, fun a ha b hb => by
    simp only [List.map_cons, List.map_nil, List.mem_singleton] at hb
    rintro rfl
    exact fresh (hb ▸ ha)⟩

def without (k : α) : List (α × β) → List (α × β)
  | [] => []
  | e :: es => if e.1 = k then without k es else e :: without k es

theorem without_sublist (k : α) (es : List (α × β)) : (without k es).Sublist es := by
  induction es with
  | nil => exact List.Sublist.refl _
  | cons e es ih =>
    rw [without]
    split
    · exact ih.cons e
    · exact ih.cons_cons e

/-- Writes a key: in its place if present, at the end otherwise. -/
def insert (m : OrdMap α β) (k : α) (v : β) : OrdMap α β :=
  if fresh : k ∈ m.entries.map Prod.fst then
    ⟨replace k v m.entries, map_fst_replace k v m.entries ▸ m.distinct⟩
  else
    ⟨m.entries ++ [(k, v)], nodup_append_key m.distinct fresh⟩

/-- Forgets a key. -/
def erase (m : OrdMap α β) (k : α) : OrdMap α β :=
  ⟨without k m.entries, m.distinct.sublist ((without_sublist k m.entries).map Prod.fst)⟩

def mapValues (m : OrdMap α β) (f : α → β → γ) : OrdMap α γ :=
  ⟨m.entries.map fun e => (e.1, f e.1 e.2), by
    rw [List.map_map]
    exact m.distinct⟩

def ofList (es : List (α × β)) : OrdMap α β :=
  es.foldl (fun m e => m.insert e.1 e.2) empty

@[simp] theorem find?_empty (k : α) : (empty : OrdMap α β).find? k = none := rfl

theorem lookup_replace (k : α) (v : β) (es : List (α × β)) (k' : α) :
    lookup k' (replace k v es) =
      if k' = k then (if k ∈ es.map Prod.fst then some v else none) else lookup k' es := by
  induction es with
  | nil => simp [replace, lookup]
  | cons e es ih =>
    by_cases hk : e.1 = k <;> by_cases h : k' = k
    · simp [replace, lookup, hk, h]
    · simp [replace, lookup, hk, h, ih, Ne.symm h]
    · subst h
      have hmem : (k' ∈ (e :: es).map Prod.fst) = (k' ∈ es.map Prod.fst) := by
        rw [List.map_cons, List.mem_cons, eq_iff_iff]
        exact ⟨fun h => h.resolve_left (Ne.symm hk), Or.inr⟩
      simp only [replace, lookup, hk, if_false, ih, if_true, hmem]
    · simp [replace, lookup, hk, h, ih]

theorem lookup_append_key (k : α) (v : β) (es : List (α × β)) (k' : α) :
    lookup k' (es ++ [(k, v)]) = (lookup k' es).or (if k' = k then some v else none) := by
  induction es with
  | nil => simp [lookup, eq_comm]
  | cons e es ih =>
    by_cases h : e.1 = k'
    · simp [lookup, h]
    · simp [lookup, h, ih]

theorem lookup_eq_none_iff (k : α) (es : List (α × β)) :
    lookup k es = none ↔ k ∉ es.map Prod.fst := by
  induction es with
  | nil => simp [lookup]
  | cons e es ih =>
    by_cases h : e.1 = k
    · simp [lookup, h]
    · simp only [lookup, h, if_false, ih, List.map_cons, List.mem_cons, not_or]
      exact ⟨fun hm => ⟨Ne.symm h, hm⟩, fun hm => hm.2⟩

theorem find?_insert (m : OrdMap α β) (k : α) (v : β) (k' : α) :
    (m.insert k v).find? k' = if k' = k then some v else m.find? k' := by
  unfold insert
  split
  · rename_i hk
    simp [find?, lookup_replace, hk]
  · rename_i hk
    by_cases h : k' = k
    · subst h
      simp [find?, lookup_append_key, (lookup_eq_none_iff k' m.entries).2 hk]
    · simp [find?, lookup_append_key, h]

theorem lookup_without (k : α) (es : List (α × β)) (k' : α) :
    lookup k' (without k es) = if k' = k then none else lookup k' es := by
  induction es with
  | nil => simp [without, lookup]
  | cons e es ih =>
    by_cases he : e.1 = k <;> by_cases h : k' = k
    · subst h
      simp only [without, he, if_true, ih]
    · simp [without, lookup, he, ih, h, Ne.symm h]
    · subst h
      simp [without, lookup, he, ih]
    · simp [without, lookup, he, ih, h]

theorem find?_erase (m : OrdMap α β) (k k' : α) :
    (m.erase k).find? k' = if k' = k then none else m.find? k' :=
  lookup_without k m.entries k'

theorem find?_mapValues (m : OrdMap α β) (f : α → β → γ) (k : α) :
    (m.mapValues f).find? k = (m.find? k).map (f k) := by
  have key : ∀ es : List (α × β), lookup k (es.map fun e => (e.1, f e.1 e.2)) =
      (lookup k es).map (f k) := by
    intro es
    induction es with
    | nil => rfl
    | cons e es ih =>
      by_cases h : e.1 = k
      · subst h
        simp [lookup]
      · simp [lookup, h, ih]
  exact key m.entries

theorem contains_iff (m : OrdMap α β) (k : α) : m.contains k = true ↔ (m.find? k).isSome := by
  rw [Option.isSome_iff_ne_none, ne_eq, find?, lookup_eq_none_iff, contains, decide_eq_true_iff,
    keys, Decidable.not_not]

/-- Every entry is found by its key. -/
theorem find?_eq_some_iff (m : OrdMap α β) (k : α) (v : β) : m.find? k = some v ↔ (k, v) ∈ m.entries := by
  have key : ∀ es : List (α × β), (es.map Prod.fst).Nodup → (lookup k es = some v ↔ (k, v) ∈ es) := by
    intro es
    induction es with
    | nil => simp [lookup]
    | cons e es ih =>
      intro distinct
      obtain ⟨fresh, distinct⟩ := List.nodup_cons.1 distinct
      rw [lookup, List.mem_cons]
      split
      · rename_i here
        have absent : (k, v) ∉ es := fun mem => fresh (here ▸ List.mem_map_of_mem (f := Prod.fst) mem)
        rw [or_iff_left absent, Option.some.injEq, Prod.ext_iff]
        exact ⟨fun eq => ⟨here.symm, eq.symm⟩, fun eq => eq.2.symm⟩
      · rename_i other
        rw [ih distinct]
        exact (or_iff_right fun eq => other (congrArg Prod.fst eq).symm).symm
  exact key m.entries m.distinct

/-! ## Entries in order -/

theorem without_eq_filter (k : α) (es : List (α × β)) : without k es = es.filter fun e => e.1 ≠ k := by
  induction es with
  | nil => rfl
  | cons e es ih =>
    rw [without, List.filter_cons, ih]
    by_cases here : e.1 = k
    · simp [here]
    · simp [here]

theorem entries_foldl_erase (m : OrdMap α β) (ks : List α) :
    (ks.foldl erase m).entries = m.entries.filter fun e => e.1 ∉ ks := by
  induction ks generalizing m with
  | nil => exact (List.filter_eq_self.2 fun _ _ => decide_eq_true List.not_mem_nil).symm
  | cons k ks ih =>
    rw [List.foldl_cons, ih]
    show (without k m.entries).filter _ = _
    rw [without_eq_filter, List.filter_filter]
    refine List.filter_congr fun e _ => ?_
    simp [Bool.and_comm]

end OrdMap

end DocTree
