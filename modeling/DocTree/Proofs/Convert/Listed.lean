import DocTree.Proofs.Convert.Declare

/-!
# What creating and declaring lists and binds

* `Listed w id` : the project lists the node; `Fills w w'` : besides what it listed before, it lists all nodes
  that there were not before;
* `fills_create`, `fills_declare` : creating and declaring leave no new node unlisted;
* `Within P bindings` : scopes and nodes that are bound have a property; `within_register`, `within_create`,
  `within_declare` : so have they afterwards, if the scope and the node have it.
-/

namespace DocTree.Workspace

variable {w w₁ w₂ : Workspace}

/-! ## What is listed -/

def Listed (w : Workspace) (id : NodeId) : Prop := w.index.listed.contains id = true

theorem listed_congr (same : w₁.index = w.index) {id : NodeId} : w₁.Listed id ↔ w.Listed id := by
  unfold Listed
  rw [same]

theorem listed_list {id id' : NodeId} : (w.list id).Listed id' ↔ id' = id ∨ w.Listed id' := by
  unfold Listed
  rw [index_list]
  exact Index.contains_insert

theorem listed_register {scope id id' : NodeId} {symbol : Option SymbolId} :
    (w.register scope id symbol).Listed id' ↔ id' = id ∨ w.Listed id' := by
  unfold Listed
  cases symbol with
  | none =>
    rw [index_register_none]
    exact Index.contains_insert
  | some symbol =>
    rw [index_register]
    exact Index.contains_insert

/-- The project lists what it listed before, and all nodes that there were not before. -/
structure Fills (w w' : Workspace) : Prop where
  size : w.store.nodes.size ≤ w'.store.nodes.size
  listed : ∀ {id}, w'.Listed id ↔ w.Listed id ∨ (w.store.nodes.size ≤ id ∧ id < w'.store.nodes.size)

theorem Fills.refl (w : Workspace) : Fills w w :=
  ⟨Nat.le_refl _, ⟨Or.inl, fun h => h.resolve_right fun new => absurd new.2 (Nat.not_lt_of_le new.1)⟩⟩

theorem Fills.trans (h : Fills w w₁) (h' : Fills w₁ w₂) : Fills w w₂ where
  size := Nat.le_trans h.size h'.size
  listed := by
    intro id
    have first := h.size
    have second := h'.size
    rw [h'.listed, h.listed, or_assoc]
    refine or_congr_right ?_
    unfold NodeId at *
    omega

theorem Fills.list_first {w' : Workspace} (h : Fills w₁ w₂) (size : w₁.store.nodes.size = w.store.nodes.size + 1)
    (same : ∀ {id}, w₁.Listed id ↔ w.Listed id) (size' : w'.store.nodes.size = w₂.store.nodes.size)
    (listed : ∀ {id}, w'.Listed id ↔ id = w.store.nodes.size ∨ w₂.Listed id) : Fills w w' := by
  have behind := h.size
  rw [size] at behind
  refine ⟨size' ▸ Nat.le_of_succ_le behind, fun {id} => ?_⟩
  rw [listed, h.listed, same, size, size', or_left_comm]
  refine or_congr_right ?_
  unfold NodeId at *
  omega

theorem fills_addPart (w : Workspace) (n : Node) : Fills w (w.addPart n).2 :=
  (Fills.refl { w with store := (w.store.addNode n).2 }).list_first (Store.size_addNode ..) Iff.rfl rfl listed_list

theorem fills_addParts (w : Workspace) (ns : List Node) : Fills w (w.addParts ns).2 := by
  induction ns generalizing w with
  | nil => exact Fills.refl w
  | cons n ns ih => exact (fills_addPart w n).trans (ih _)

theorem fills_addSignature (w : Workspace) (parent : NodeId) (shape : SignatureShape) :
    Fills w (w.addSignature parent shape).2 := by
  have types := fills_addParts { w with store := (w.store.addNode ⟨(signatureHead (w.store.node parent)).2,
    (signatureHead (w.store.node parent)).1, some parent, .signature { type := shape.result }⟩).2 }
    (shape.typeParameters.map (typeParameterNode w.store.nodes.size))
  have parts := types.trans (fills_addParts _ (shape.parameters.map (parameterNode w.store.nodes.size)))
  exact parts.list_first (Store.size_addNode ..) Iff.rfl (Store.size_modifyNode ..) listed_list

theorem fills_addSignatures (w : Workspace) (parent : NodeId) (shapes : List SignatureShape) :
    Fills w (w.addSignatures parent shapes).2 := by
  induction shapes generalizing w with
  | nil => exact Fills.refl w
  | cons shape shapes ih => exact (fills_addSignature w parent shape).trans (ih _)

theorem fills_populate (w : Workspace) (id : NodeId) (d : Description) : Fills w (w.populate id d) := by
  have parts := (fills_addParts w (d.typeParameters.map (typeParameterNode id))).trans
    (fills_addSignatures _ id d.signatures)
  have size : (w.populate id d).store.nodes.size = _ := Store.size_modifyNode ..
  exact ⟨size ▸ parts.size, size ▸ parts.listed⟩

theorem fills_create (w : Workspace) (scope : NodeId) (kind : Kind) (name : Value) (symbol : Option SymbolId) :
    Fills w (w.create scope kind name symbol).2 := by
  have size : ((w.store.addNode ⟨name, kind, none, .declaration {}⟩).2.addChild scope
      w.store.nodes.size).nodes.size = w.store.nodes.size + 1 := by
    simp [Store.addChild, Store.modifyBody]
  exact (Fills.refl { w with store := ((w.store.addNode _).2.addChild _ _) }).list_first size Iff.rfl
    (congrArg Array.size (nodes_register ..)) listed_register

theorem Quiet.fills (q : Quiet w w₁) : Fills w w₁ := by
  refine ⟨q.store ▸ Nat.le_refl _, fun {id} => ?_⟩
  rw [listed_congr q.index, q.store]
  exact (Fills.refl w).listed

/-- Declaring a symbol lists the declaration and all that is in it. -/
theorem fills_declare (w : Workspace) (scope : NodeId) (symbol : SymbolId) (d : Description) :
    Fills w (w.declare scope symbol d).2 := by
  have created := (quiet_reportForeign w (w.store.symbol symbol)).fills.trans (fills_create _ scope
    (w.store.symbol symbol).kind (w.store.symbol symbol).name (some symbol))
  unfold declare
  exact created.trans (fills_populate ..)

/-! ## What is bound -/

def Within (P : NodeId → Prop) (bindings : Bindings) : Prop :=
  ∀ ⦃scope pairs⦄, bindings.find? scope = some pairs → P scope ∧ ∀ pair ∈ pairs, P pair.2

variable {P : NodeId → Prop} {scope id : NodeId}

theorem Within.mono {Q : NodeId → Prop} {bindings : Bindings} (h : Within P bindings) (sub : ∀ id, P id → Q id) :
    Within Q bindings := by
  intro scope pairs eq
  obtain ⟨here, targets⟩ := h eq
  exact ⟨sub _ here, fun pair mem => sub _ (targets pair mem)⟩

theorem within_register (h : Within P w.bindings) (here : P scope) (target : P id) (symbol : Option SymbolId) :
    Within P (w.register scope id symbol).bindings := by
  cases symbol with
  | none => exact h
  | some symbol =>
    intro scope' pairs eq
    have eq : (w.bindings.insert scope (w.bound scope ++ [(symbol, id)])).find? scope' = some pairs := eq
    rw [OrdMap.find?_insert] at eq
    split at eq
    · rename_i same
      cases eq
      refine ⟨same ▸ here, fun pair mem => ?_⟩
      rcases List.mem_append.1 mem with mem | mem
      · unfold Workspace.bound at mem
        cases before : w.bindings.find? scope with
        | none =>
          rw [before] at mem
          cases mem
        | some pairs =>
          rw [before] at mem
          exact (h before).2 pair mem
      · rw [List.mem_singleton.1 mem]
        exact target
    · exact h eq

theorem within_create (h : Within P w.bindings) (here : P scope) (target : P w.store.nodes.size) (kind : Kind)
    (name : Value) (symbol : Option SymbolId) : Within P (w.create scope kind name symbol).2.bindings :=
  within_register (w := { w with store := ((w.store.addNode _).2.addChild _ _) }) h here target symbol

theorem within_declare (h : Within P w.bindings) (here : P scope) (target : P w.store.nodes.size)
    (symbol : SymbolId) (d : Description) : Within P (w.declare scope symbol d).2.bindings := by
  have q := quiet_reportForeign w (w.store.symbol symbol)
  have eq : (w.declare scope symbol d).2.bindings = _ := congrArg Workspace.bindings (confined_populate _ _ d)
  rw [eq]
  refine within_create (w := w.reportForeign (w.store.symbol symbol)) (q.bindings ▸ h) here ?_ ..
  rw [q.store]
  exact target

end DocTree.Workspace
