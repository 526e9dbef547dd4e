import DocTree.Proofs.Document.Copy
import DocTree.Proofs.Document.Tally

/-!
# What loading programs leaves alone

* `Augments w w'` : from `w` to `w'` symbols and programs were declared and described, and plain nodes were
  added; indexes and bindings are the same;
* `loadPrograms_augmenting` : that is all that loading programs does.
-/

namespace DocTree.Document

/-- Plain nodes were added, symbols and programs changed, all else is the same. -/
def Augments (w w' : Workspace) : Prop :=
  ∃ (ns : List Node) (symbols : Array Symbol) (programs : OrdMap Value.Key Program), (∀ n ∈ ns, n.Plain) ∧
    w' = { w with store := { w.store with nodes := w.store.nodes ++ ns, symbols := symbols }, programs := programs }

variable {α : Type} {w w₁ w' : Workspace}

theorem Augments.refl (w : Workspace) : Augments w w := by
  refine ⟨[], w.store.symbols, w.programs, List.forall_mem_nil _, ?_⟩
  have none : w.store.nodes ++ ([] : List Node) = w.store.nodes :=
    Array.toList_inj.1 (Array.toList_appendList.trans (List.append_nil _))
  rw [none]

theorem Augments.trans (h : Augments w w₁) (h' : Augments w₁ w') : Augments w w' := by
  obtain ⟨ns, ss, ps, plain, rfl⟩ := h
  obtain ⟨ns', ss', ps', plain', rfl⟩ := h'
  refine ⟨ns ++ ns', ss', ps', List.forall_mem_append.2 ⟨plain, plain'⟩, ?_⟩
  have both : w.store.nodes ++ ns ++ ns' = w.store.nodes ++ (ns ++ ns') :=
    Array.toList_inj.1 (by simp only [Array.toList_appendList, List.append_assoc])
  rw [← both]

theorem Augments.index (h : Augments w w') : w'.index = w.index := by
  obtain ⟨ns, ss, ps, _, rfl⟩ := h
  rfl

theorem Augments.bindings (h : Augments w w') : w'.bindings = w.bindings := by
  obtain ⟨ns, ss, ps, _, rfl⟩ := h
  rfl

theorem Augments.plain (h : Augments w w') (plain : ∀ id, (w.store.node id).Plain) (id : NodeId) :
    (w'.store.node id).Plain := by
  obtain ⟨ns, ss, ps, new, rfl⟩ := h
  have old := plain id
  simp only [Store.node, ← Array.getElem?_toList, Array.toList_appendList] at old ⊢
  by_cases inside : id < w.store.nodes.toList.length
  · rwa [List.getElem?_append_left inside]
  · rw [List.getElem?_append_right (Nat.le_of_not_lt inside)]
    cases eq : ns[id - w.store.nodes.toList.length]? with
    | none => trivial
    | some n => exact new n (List.mem_of_getElem? eq)

theorem augments_symbols (w : Workspace) (symbols : Array Symbol) :
    Augments w { w with store := { w.store with symbols := symbols } } := by
  obtain ⟨ns, _, ps, plain, eq⟩ := Augments.refl w
  exact ⟨ns, symbols, ps, plain, congrArg (fun v : Workspace =>
    { v with store := { v.store with symbols := symbols } }) eq⟩

theorem augments_programs (w : Workspace) (programs : OrdMap Value.Key Program) :
    Augments w { w with programs := programs } := by
  obtain ⟨ns, ss, _, plain, eq⟩ := Augments.refl w
  exact ⟨ns, ss, programs, plain, congrArg (fun v : Workspace => { v with programs := programs }) eq⟩

/-- A computation that augments the workspace it is started in, if it ends well. -/
def Augmenting (x : Load α) : Prop := ∀ w, Meets x w (fun _ w' => Augments w w') Whatever

theorem augmenting_pure (a : α) : Augmenting (pure a) := fun w => meets_pure (.refl w)

theorem augmenting_throw {e : Error} : Augmenting (throw e : Load α) := fun _ => meets_throw trivial

theorem augmenting_modify {f : Workspace → Workspace} (h : ∀ w, Augments w (f w)) : Augmenting (modify f) :=
  fun w => meets_modify (h w)

theorem Augmenting.bind {β : Type} {x : Load α} {f : α → Load β} (first : Augmenting x)
    (rest : ∀ a, Augmenting (f a)) : Augmenting (x >>= f) := fun w =>
  meets_bind (first w) fun a w₁ h => (rest a w₁).mono (fun _ _ h' => h.trans h') fun _ _ _ => trivial

theorem Copies.augmenting {act : Renumbering → α → α} {scope : Scope} {x : Load α} {y : Renumbering → Scope → Load α}
    (copies : Copies act scope x y) : Augmenting x := by
  intro w
  unfold Meets
  split
  · rename_i eq
    obtain ⟨ns, ss, rfl, plain, _⟩ := copies eq
    exact ⟨ns, w.store.symbols ++ ss, w.programs, plain, rfl⟩
  · trivial

/-! ## Declaring and describing -/

theorem declareSymbols_augmenting (fields : List (String × Value)) (program : Program) :
    Augmenting (declareSymbols fields program) := by
  induction fields generalizing program with
  | nil => exact augmenting_pure _
  | cons field fields ih =>
    unfold declareSymbols
    have kind : Augmenting (readKind ("programs." ++ program.name.text ++ ".symbols." ++ field.1) field.2) := fun w =>
      (readKind_meets _ field.2).mono (fun _ _ same => same ▸ .refl w) fun _ _ _ => trivial
    refine kind.bind fun kind => ?_
    refine Augmenting.bind (fun w => ?_) fun id => (ih _).bind fun declared => augmenting_pure _
    exact meets_modifyGet (augments_symbols w _)

theorem declareProgram_augmenting (name : String) (v : Value) : Augmenting (declareProgram name v) := by
  unfold declareProgram
  split
  · split
    · refine (declareSymbols_augmenting _ _).bind fun declared => ?_
      exact (augmenting_modify fun w => augments_programs w _).bind fun _ => augmenting_pure _
    · exact augmenting_throw
  · exact augmenting_throw

theorem declarePrograms_augmenting (fields : List (String × Value)) : Augmenting (declarePrograms fields) := by
  induction fields with
  | nil => exact augmenting_pure _
  | cons field fields ih =>
    unfold declarePrograms
    exact (declareProgram_augmenting _ _).bind fun program => ih.bind fun programs => augmenting_pure _

theorem describeSymbols_augmenting (scope : Scope) (pending : List Pending) :
    Augmenting (describeSymbols scope pending) := by
  induction pending with
  | nil => exact augmenting_pure _
  | cons p ps ih =>
    unfold describeSymbols
    simp only
    split
    · refine (describe_copies scope p.path p.kind p.spec).augmenting.bind fun d => ?_
      exact (augmenting_modify fun w => augments_symbols w _).bind fun _ => ih
    · exact ih

theorem describePrograms_augmenting (project : NodeId) (ps : List DeclaredProgram) :
    Augmenting (describePrograms project ps) := by
  induction ps with
  | nil => exact augmenting_pure _
  | cons p ps ih =>
    unfold describePrograms
    exact (describeSymbols_augmenting _ p.pending).bind fun _ => ih

/-- Loading programs adds plain nodes, symbols and programs, and nothing else. -/
theorem loadPrograms_augmenting (source v : Value) : Augmenting (loadPrograms source v) := by
  unfold loadPrograms
  split
  · refine (declarePrograms_augmenting _).bind fun ps => ?_
    exact Augmenting.bind (fun w => meets_get (.refl w)) fun _ => describePrograms_augmenting _ ps
  · exact augmenting_throw

end DocTree.Document
