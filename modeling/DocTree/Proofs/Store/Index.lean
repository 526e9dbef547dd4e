import DocTree.Store

/-!
# What an index knows

* `Index.Consistent` : every node with a symbol is listed, and knows its symbols; kept by
  `Consistent.list`, `Consistent.bind`, `Consistent.forget`;
* `nodeOf?_list`, `nodeOf?_bind`, `nodeOf?_forget` : which nodes symbols have afterwards;
* `contains_foldl_forget`, `Consistent.foldl_forget` : an index that forgets many nodes;
  `listed_foldl_forget`, `symbols_foldl_forget`, `Consistent.entries_foldl_forget` : what is left in it, in order.
-/

namespace DocTree.Index

variable {i : Index}

/-- Every node that a symbol is bound to is listed, and the symbol is among those of the node. -/
structure Consistent (i : Index) : Prop where
  listed : ∀ {symbol id}, i.bound.find? symbol = some id → i.listed.contains id = true
  symbols : ∀ {symbol id}, i.bound.find? symbol = some id → symbol ∈ i.symbolsOf id

theorem contains_insert {m : OrdMap NodeId Unit} {id id' : NodeId} :
    (m.insert id ()).contains id' = true ↔ id' = id ∨ m.contains id' = true := by
  rw [OrdMap.contains_iff, OrdMap.contains_iff, OrdMap.find?_insert]
  by_cases h : id' = id
  · simp [h]
  · simp [h]

theorem contains_erase {m : OrdMap NodeId Unit} {id id' : NodeId} :
    (m.erase id).contains id' = true ↔ id' ≠ id ∧ m.contains id' = true := by
  rw [OrdMap.contains_iff, OrdMap.contains_iff, OrdMap.find?_erase]
  by_cases h : id' = id
  · simp [h]
  · simp [h]

theorem Consistent.nodeOf?_eq (h : i.Consistent) (symbol : SymbolId) :
    i.nodeOf? symbol = i.bound.find? symbol := by
  unfold nodeOf?
  cases eq : i.bound.find? symbol with
  | none => rfl
  | some id => rw [Option.filter_some, if_pos (h.listed eq)]

theorem consistent_of_bound_empty (h : ∀ symbol, i.bound.find? symbol = none) : i.Consistent := by
  constructor
  · intro symbol id eq
    rw [h] at eq
    cases eq
  · intro symbol id eq
    rw [h] at eq
    cases eq

/-! ## Listing -/

theorem Consistent.list (h : i.Consistent) (id : NodeId) : (i.list id).Consistent := by
  constructor
  · intro symbol n eq
    exact contains_insert.2 (Or.inr (h.listed eq))
  · intro symbol n eq
    exact h.symbols eq

theorem nodeOf?_list (h : i.Consistent) (id : NodeId) (symbol : SymbolId) :
    (i.list id).nodeOf? symbol = i.nodeOf? symbol := by
  rw [(h.list id).nodeOf?_eq, h.nodeOf?_eq]
  rfl

/-! ## Binding -/

theorem mem_symbolsOf_bind {id id' : NodeId} {symbol symbol' : SymbolId} :
    symbol' ∈ (i.bind id symbol).symbolsOf id' ↔
      symbol' ∈ i.symbolsOf id' ∨ (id' = id ∧ symbol' = symbol) := by
  unfold symbolsOf bind
  simp only [OrdMap.find?_insert]
  by_cases h : id' = id
  · subst h
    simp only [if_true, Option.getD_some, true_and]
    split
    · rename_i known
      exact ⟨Or.inl, fun h => h.elim id fun eq => eq ▸ known⟩
    · rw [List.mem_append, List.mem_singleton]
      rfl
  · simp [h]

theorem Consistent.bind (h : i.Consistent) (id : NodeId) (symbol : SymbolId) :
    (i.bind id symbol).Consistent := by
  constructor
  · intro symbol' n eq
    unfold Index.bind at eq ⊢
    rw [OrdMap.find?_insert] at eq
    refine contains_insert.2 ?_
    split at eq
    · exact Or.inl (Option.some.inj eq).symm
    · exact Or.inr (h.listed eq)
  · intro symbol' n eq
    rw [mem_symbolsOf_bind]
    unfold Index.bind at eq
    rw [OrdMap.find?_insert] at eq
    split at eq
    · rename_i same
      exact Or.inr ⟨(Option.some.inj eq).symm, same⟩
    · exact Or.inl (h.symbols eq)

theorem nodeOf?_bind (h : i.Consistent) (id : NodeId) (symbol symbol' : SymbolId) :
    (i.bind id symbol).nodeOf? symbol' = if symbol' = symbol then some id else i.nodeOf? symbol' := by
  rw [(h.bind id symbol).nodeOf?_eq, h.nodeOf?_eq]
  unfold Index.bind
  exact OrdMap.find?_insert ..

/-! ## Forgetting -/

theorem find?_release (id : NodeId) (bound : OrdMap SymbolId NodeId) (symbol symbol' : SymbolId) :
    (release id bound symbol).find? symbol' =
      if symbol' = symbol ∧ bound.find? symbol' = some id then none else bound.find? symbol' := by
  unfold release
  by_cases h : symbol' = symbol
  · subst h
    split
    · rename_i eq
      rw [OrdMap.find?_erase, if_pos rfl, if_pos ⟨rfl, eq⟩]
    · rename_i ne
      rw [if_neg fun h => ne h.2]
  · rw [if_neg (c := symbol' = symbol ∧ _) fun both => h both.1]
    split
    · rw [OrdMap.find?_erase, if_neg h]
    · rfl

theorem find?_foldl_release (id : NodeId) (symbols : List SymbolId) (bound : OrdMap SymbolId NodeId)
    (symbol' : SymbolId) :
    (symbols.foldl (release id) bound).find? symbol' =
      if symbol' ∈ symbols ∧ bound.find? symbol' = some id then none else bound.find? symbol' := by
  induction symbols generalizing bound with
  | nil => simp
  | cons symbol symbols ih =>
    rw [List.foldl_cons, ih, find?_release]
    by_cases bd : bound.find? symbol' = some id
    · by_cases here : symbol' = symbol
      · simp [here]
      · simp [here]
    · simp [bd]

theorem Consistent.bound_forget (h : i.Consistent) (id : NodeId) (symbol : SymbolId) :
    (i.forget id).bound.find? symbol =
      if i.bound.find? symbol = some id then none else i.bound.find? symbol := by
  unfold forget
  rw [find?_foldl_release]
  by_cases bd : i.bound.find? symbol = some id
  · rw [if_pos ⟨h.symbols bd, bd⟩, if_pos bd]
  · rw [if_neg fun both => bd both.2, if_neg bd]

theorem Consistent.forget (h : i.Consistent) (id : NodeId) : (i.forget id).Consistent := by
  have other : ∀ {symbol n}, (i.forget id).bound.find? symbol = some n →
      i.bound.find? symbol = some n ∧ n ≠ id := by
    intro symbol n eq
    rw [h.bound_forget] at eq
    split at eq
    · cases eq
    · rename_i ne
      exact ⟨eq, fun same => ne (same ▸ eq)⟩
  constructor
  · intro symbol n eq
    obtain ⟨eq, ne⟩ := other eq
    exact contains_erase.2 ⟨ne, h.listed eq⟩
  · intro symbol n eq
    obtain ⟨eq, ne⟩ := other eq
    have := h.symbols eq
    unfold symbolsOf Index.forget at *
    rwa [OrdMap.find?_erase, if_neg ne]

theorem nodeOf?_forget (h : i.Consistent) (id : NodeId) (symbol : SymbolId) :
    (i.forget id).nodeOf? symbol =
      if i.nodeOf? symbol = some id then none else i.nodeOf? symbol := by
  rw [(h.forget id).nodeOf?_eq, h.nodeOf?_eq, h.bound_forget]

/-! ## Forgetting many -/

theorem contains_foldl_forget {ids : List NodeId} {id : NodeId} :
    (ids.foldl forget i).listed.contains id = true ↔ id ∉ ids ∧ i.listed.contains id = true := by
  induction ids generalizing i with
  | nil => simp
  | cons first ids ih =>
    rw [List.foldl_cons, ih, List.mem_cons, not_or]
    have forgotten : (i.forget first).listed.contains id = true ↔ id ≠ first ∧ i.listed.contains id = true :=
      contains_erase
    rw [forgotten]
    exact ⟨fun h => ⟨⟨h.2.1, h.1⟩, h.2.2⟩, fun h => ⟨h.1.2, h.1.1, h.2⟩⟩

theorem Consistent.foldl_forget (h : i.Consistent) (ids : List NodeId) : (ids.foldl Index.forget i).Consistent := by
  induction ids generalizing i with
  | nil => exact h
  | cons first ids ih => exact ih (h.forget first)

/-! ## What is left, in order -/

theorem listed_foldl_forget (ids : List NodeId) : (ids.foldl forget i).listed = ids.foldl OrdMap.erase i.listed := by
  induction ids generalizing i with
  | nil => rfl
  | cons first ids ih => exact ih

theorem symbols_foldl_forget (ids : List NodeId) :
    (ids.foldl forget i).symbols = ids.foldl OrdMap.erase i.symbols := by
  induction ids generalizing i with
  | nil => rfl
  | cons first ids ih => exact ih

theorem entries_release (id : NodeId) (bound : OrdMap SymbolId NodeId) (symbol : SymbolId) :
    (release id bound symbol).entries = bound.entries.filter fun e => ¬(e.1 = symbol ∧ e.2 = id) := by
  unfold release
  split
  · rename_i here
    show (OrdMap.without symbol bound.entries) = _
    rw [OrdMap.without_eq_filter]
    refine List.filter_congr fun e mem => ?_
    have single : e.1 = symbol → e.2 = id := by
      rintro rfl
      exact Option.some.inj (((OrdMap.find?_eq_some_iff bound e.1 e.2).2 mem).symm.trans here)
    simp only [ne_eq, decide_not, not_and]
    by_cases eq : e.1 = symbol
    · simp [eq, single eq]
    · simp [eq]
  · rename_i other
    refine (List.filter_eq_self.2 fun e mem => ?_).symm
    have apart : ¬(e.1 = symbol ∧ e.2 = id) := by
      rintro ⟨rfl, rfl⟩
      exact other ((OrdMap.find?_eq_some_iff bound e.1 e.2).2 mem)
    exact decide_eq_true apart

theorem entries_foldl_release (id : NodeId) (symbols : List SymbolId) (bound : OrdMap SymbolId NodeId) :
    (symbols.foldl (release id) bound).entries = bound.entries.filter fun e => ¬(e.1 ∈ symbols ∧ e.2 = id) := by
  induction symbols generalizing bound with
  | nil => exact (List.filter_eq_self.2 fun _ _ => decide_eq_true fun both => List.not_mem_nil both.1).symm
  | cons symbol symbols ih =>
    rw [List.foldl_cons, ih, entries_release, List.filter_filter]
    refine List.filter_congr fun e _ => ?_
    by_cases here : e.2 = id
    · simp [here, Bool.and_comm]
    · simp [here]

/-- The symbols that are bound to other nodes stay bound, in the same order. -/
theorem Consistent.entries_foldl_forget (h : i.Consistent) (ids : List NodeId) :
    (ids.foldl Index.forget i).bound.entries = i.bound.entries.filter fun e => e.2 ∉ ids := by
  induction ids generalizing i with
  | nil => exact (List.filter_eq_self.2 fun _ _ => decide_eq_true List.not_mem_nil).symm
  | cons id ids ih =>
    have first : (i.forget id).bound.entries = i.bound.entries.filter fun e => e.2 ≠ id := by
      show ((i.symbolsOf id).foldl (release id) i.bound).entries = _
      rw [entries_foldl_release]
      refine List.filter_congr fun e mem => ?_
      have known : e.2 = id → e.1 ∈ i.symbolsOf id := by
        rintro rfl
        exact h.symbols ((OrdMap.find?_eq_some_iff i.bound e.1 e.2).2 mem)
      by_cases here : e.2 = id
      · simp [here, known here]
      · simp [here]
    rw [List.foldl_cons, ih (h.forget id), first, List.filter_filter]
    refine List.filter_congr fun e _ => ?_
    simp [Bool.and_comm]

end DocTree.Index
