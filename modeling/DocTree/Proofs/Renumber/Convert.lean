import DocTree.Convert
import DocTree.Proofs.Renumber.Search

/-!
# Conversion under other numbers

* `Workspace.Mirror` : workspaces that say the same under other numbers, whatever was taken down in their logs;
* `Mirror.create`, `Mirror.populate`, `Mirror.declare`, `Mirror.announce`, `Mirror.remove` : the operations keep it;
* `Workspace.Agree` : operations that end alike; `Mirror.convertIn`, `Mirror.convert` : conversions do.
-/

namespace DocTree

variable {ρ : Renumbering}

/-- A program whose names stand for the same under other numbers. -/
structure Program.Mirror (ρ : Renumbering) (p q : Program) : Prop where
  name : q.name = p.name
  symbols : p.symbols.Mirror (.refl _) ρ.symbol q.symbols

namespace Workspace

/-- A workspace that holds the same under other numbers. Bindings and what was taken down are left out. -/
structure Mirror (ρ : Renumbering) (w v : Workspace) : Prop where
  store : w.store.Mirror ρ v.store
  project : v.project = w.project
  root : ρ.node w.project = w.project
  active : v.active = w.active
  settings : v.settings = w.settings
  listeners : v.listeners = w.listeners
  known : w.known.Mirror ρ.node id v.known
  programs : ∀ key, Option.Rel (Program.Mirror ρ) (w.programs.find? key) (v.programs.find? key)
  programCount : v.programs.size = w.programs.size

variable {w v : Workspace}

theorem Mirror.withStore (h : w.Mirror ρ v) {s t : Store} (same : s.Mirror ρ t) :
    Mirror ρ { w with store := s } { v with store := t } :=
  { h with store := same }

theorem Mirror.report (h : w.Mirror ρ v) (level : LogLevel) (source : LogSource) (message message' : String) :
    (w.report level source message).Mirror ρ (v.report level source message') :=
  { h with }

theorem Mirror.activate (h : w.Mirror ρ v) (program : Option Value) : (w.activate program).Mirror ρ (v.activate program) :=
  { h with active := rfl }

theorem Mirror.project_eq (h : w.Mirror ρ v) : ρ.node w.project = v.project := h.root.trans h.project.symm

/-! ## Operations -/

theorem Mirror.list (h : w.Mirror ρ v) {id id' : NodeId} (here : id' = ρ.node id) :
    (w.list id).Mirror ρ (v.list id') := by
  have same := h.store.register w.project id none
  rw [h.project_eq, ← here] at same
  exact h.withStore same

theorem Mirror.register (h : w.Mirror ρ v) (scope id : NodeId) (X : Option SymbolId) :
    (w.register scope id X).Mirror ρ (v.register (ρ.node scope) (ρ.node id) (X.map ρ.symbol)) := by
  have same := h.store.register w.project id X
  rw [h.project_eq] at same
  cases X with
  | none => exact h.withStore same
  | some X => exact { h.withStore same with }

theorem Mirror.create (h : w.Mirror ρ v) (scope : NodeId) (kind : Kind) (name : Value) (X : Option SymbolId) :
    (v.create (ρ.node scope) kind name (X.map ρ.symbol)).1 = ρ.node (w.create scope kind name X).1 ∧
      (w.create scope kind name X).2.Mirror ρ (v.create (ρ.node scope) kind name (X.map ρ.symbol)).2 := by
  have last : v.store.nodes.size = ρ.node w.store.nodes.size := h.store.size.trans (h.store.free (Nat.le_refl _)).symm
  refine ⟨last, ?_⟩
  have grown := (h.store.addNode ⟨name, kind, none, .declaration {}⟩).addChild scope w.store.nodes.size
  rw [← last] at grown
  have registered := (h.withStore grown).register scope w.store.nodes.size X
  rw [← last] at registered
  exact registered

theorem Mirror.remove (h : w.Mirror ρ v) (id : NodeId) : (w.remove id).Mirror ρ (v.remove (ρ.node id)) := by
  have same := h.store.remove w.project id
  rw [h.project_eq] at same
  exact { h.withStore same with }

/-! ## Filling declarations -/

theorem Mirror.addPart (h : w.Mirror ρ v) (n : Node) :
    (v.addPart (n.renumber ρ)).1 = ρ.node (w.addPart n).1 ∧ (w.addPart n).2.Mirror ρ (v.addPart (n.renumber ρ)).2 := by
  have last : v.store.nodes.size = ρ.node w.store.nodes.size := h.store.size.trans (h.store.free (Nat.le_refl _)).symm
  exact ⟨last, (h.withStore (h.store.addNode n)).list last⟩

theorem Mirror.addParts (h : w.Mirror ρ v) (ns : List Node) :
    (v.addParts (ns.map (Node.renumber ρ))).1 = (w.addParts ns).1.map ρ.node ∧
      (w.addParts ns).2.Mirror ρ (v.addParts (ns.map (Node.renumber ρ))).2 := by
  induction ns generalizing w v with
  | nil => exact ⟨rfl, h⟩
  | cons n ns ih =>
    obtain ⟨first, added⟩ := h.addPart n
    obtain ⟨rest, all⟩ := ih added
    exact ⟨congrArg₂ List.cons first rest, all⟩

theorem map_typeParameterNode (parent : NodeId) (shapes : List TypeParameterShape) :
    (shapes.map (TypeParameterShape.renumber ρ)).map (typeParameterNode (ρ.node parent)) =
      (shapes.map (typeParameterNode parent)).map (Node.renumber ρ) := by
  rw [List.map_map, List.map_map]
  rfl

theorem map_parameterNode (parent : NodeId) (shapes : List ParameterShape) :
    (shapes.map (ParameterShape.renumber ρ)).map (parameterNode (ρ.node parent)) =
      (shapes.map (parameterNode parent)).map (Node.renumber ρ) := by
  rw [List.map_map, List.map_map]
  rfl

theorem Mirror.addSignature (h : w.Mirror ρ v) (parent : NodeId) (shape : SignatureShape) :
    (v.addSignature (ρ.node parent) (shape.renumber ρ)).1 = ρ.node (w.addSignature parent shape).1 ∧
      (w.addSignature parent shape).2.Mirror ρ (v.addSignature (ρ.node parent) (shape.renumber ρ)).2 := by
  have last : v.store.nodes.size = ρ.node w.store.nodes.size := h.store.size.trans (h.store.free (Nat.le_refl _)).symm
  have head : signatureHead (v.store.node (ρ.node parent)) = signatureHead (w.store.node parent) := by
    rw [h.store.node]
    rfl
  refine ⟨last, ?_⟩
  have started := h.withStore (h.store.addNode ⟨(signatureHead (w.store.node parent)).2,
    (signatureHead (w.store.node parent)).1, some parent, .signature { type := shape.result }⟩)
  obtain ⟨typeParameters, first⟩ := started.addParts (shape.typeParameters.map (typeParameterNode w.store.nodes.size))
  obtain ⟨parameters, second⟩ := first.addParts (shape.parameters.map (parameterNode w.store.nodes.size))
  unfold Workspace.addSignature
  rw [head]
  rw [← map_typeParameterNode, ← last] at typeParameters first
  rw [← map_typeParameterNode, ← map_parameterNode, ← last] at parameters second
  refine (second.withStore (second.store.setBody last ?_)).list last
  exact congrArg Body.signature (congrArg₂ (fun ids ids' : List NodeId =>
    ({ type := (shape.renumber ρ).result, parameters := ids, typeParameters := ids' } : SignatureBody))
    parameters typeParameters)

theorem Mirror.addSignatures (h : w.Mirror ρ v) (parent : NodeId) (shapes : List SignatureShape) :
    (v.addSignatures (ρ.node parent) (shapes.map (SignatureShape.renumber ρ))).1 =
        (w.addSignatures parent shapes).1.map ρ.node ∧
      (w.addSignatures parent shapes).2.Mirror ρ
        (v.addSignatures (ρ.node parent) (shapes.map (SignatureShape.renumber ρ))).2 := by
  induction shapes generalizing w v with
  | nil => exact ⟨rfl, h⟩
  | cons shape shapes ih =>
    obtain ⟨first, added⟩ := h.addSignature parent shape
    obtain ⟨rest, all⟩ := ih added
    exact ⟨congrArg₂ List.cons first rest, all⟩

theorem describedBody_renumber (d : Description) (typeParameters signatures : List NodeId) (b : Body) :
    describedBody (d.renumber ρ) (typeParameters.map ρ.node) (signatures.map ρ.node) (b.renumber ρ) =
      (describedBody d typeParameters signatures b).renumber ρ := by
  cases b <;> rfl

theorem Mirror.populate (h : w.Mirror ρ v) {id id' : NodeId} (here : id' = ρ.node id) (d : Description) :
    (w.populate id d).Mirror ρ (v.populate id' (d.renumber ρ)) := by
  subst here
  obtain ⟨typeParameters, first⟩ := h.addParts (d.typeParameters.map (typeParameterNode id))
  rw [← map_typeParameterNode] at typeParameters first
  obtain ⟨signatures, second⟩ := first.addSignatures id d.signatures
  unfold Workspace.populate
  simp only [Description.renumber, typeParameters, signatures] at second ⊢
  exact second.withStore (second.store.modifyBody id fun b => describedBody_renumber d _ _ b)

/-! ## Events -/

theorem Mirror.reactToCreation (h : w.Mirror ρ v) (scope id : NodeId) (listener : Listener) :
    (w.reactToCreation scope id listener).Mirror ρ (v.reactToCreation (ρ.node scope) (ρ.node id) listener) := by
  unfold Workspace.reactToCreation
  cases listener.reaction with
  | trackProgram =>
    have kind : (v.store.node (ρ.node scope)).isKind trackedKinds = (w.store.node scope).isKind trackedKinds := by
      rw [Node.isKind, h.store.kind]
      rfl
    simp only [h.active, kind]
    cases w.active with
    | none => exact h
    | some program =>
      by_cases tracked : (w.store.node scope).isKind trackedKinds = true
      · simp only [tracked, if_true]
        exact { h with active := rfl, known := h.known.insert scope rfl }
      · simp only [tracked]
        exact h
  | resolve => exact h
  | note tag => exact { h with }
  | noteCreation => exact { h with }

theorem Mirror.announce (h : w.Mirror ρ v) (scope : NodeId) {id id' : NodeId} (here : id' = ρ.node id) :
    (w.announce scope id).Mirror ρ (v.announce (ρ.node scope) id') := by
  subst here
  have told := h.report .debug .conversion ("created " ++ w.store.display id ++ " under " ++ w.store.display scope)
    ("created " ++ v.store.display (ρ.node id) ++ " under " ++ v.store.display (ρ.node scope))
  unfold Workspace.announce reacting?
  rw [h.listeners]
  generalize (Listener.toEvent? w.listeners creationEvent).getD [] = listeners
  revert told
  generalize w.report .debug .conversion _ = w
  generalize v.report .debug .conversion _ = v
  intro told
  induction listeners generalizing w v with
  | nil => exact told
  | cons listener listeners ih => exact ih _ _ (told.reactToCreation scope id listener)

theorem Mirror.canAnnounce (h : w.Mirror ρ v) : v.canAnnounce = w.canAnnounce := by
  unfold Workspace.canAnnounce reacting?
  rw [h.listeners]

/-! ## Conversion -/

theorem Mirror.nodeOf? (h : w.Mirror ρ v) (X : SymbolId) : v.nodeOf? (ρ.symbol X) = (w.nodeOf? X).map ρ.node := by
  have same := h.store.nodeOf? w.project X
  rwa [h.project_eq] at same

theorem Mirror.declarationOf? (h : w.Mirror ρ v) (X : SymbolId) :
    v.declarationOf? (ρ.symbol X) = (w.declarationOf? X).map ρ.node := by
  unfold Workspace.declarationOf?
  rw [h.nodeOf?]
  cases w.nodeOf? X with
  | none => rfl
  | some id =>
    rw [Option.map_some, Option.filter_some, Option.filter_some, h.store.node, Node.body_renumber]
    cases (w.store.node id).body <;> rfl

theorem Mirror.declare (h : w.Mirror ρ v) (scope : NodeId) (X : SymbolId) (d : Description) :
    (v.declare (ρ.node scope) (ρ.symbol X) (d.renumber ρ)).1 = ρ.node (w.declare scope X d).1 ∧
      (w.declare scope X d).2.Mirror ρ (v.declare (ρ.node scope) (ρ.symbol X) (d.renumber ρ)).2 := by
  have quiet : (w.reportForeign (w.store.symbol X)).Mirror ρ (v.reportForeign (v.store.symbol (ρ.symbol X))) := by
    unfold Workspace.reportForeign
    rw [h.store.symbol, h.active, show ((w.store.symbol X).renumber ρ).program = (w.store.symbol X).program from rfl]
    split
    · exact h.report ..
    · exact h
  obtain ⟨id, created⟩ := quiet.create scope (w.store.symbol X).kind (w.store.symbol X).name (some X)
  unfold Workspace.declare
  simp only [h.store.symbol] at id created ⊢
  exact ⟨id, created.populate id d⟩

/-- Operations that end alike: with the same answer, changed by `f`, or both with an error. -/
def Agree {α β : Type} (ρ : Renumbering) (f : α → β) (x : Except Error α × Workspace) (y : Except Error β × Workspace) :
    Prop :=
  y.1.toOption = x.1.toOption.map f ∧ x.2.Mirror ρ y.2

theorem Mirror.convertIn (h : w.Mirror ρ v) (depth : Nat) (scope : NodeId) (X : SymbolId) :
    (v.convertIn depth (ρ.node scope) (ρ.symbol X)).1 = (w.convertIn depth scope X).1.map ρ.node ∧
      (w.convertIn depth scope X).2.Mirror ρ (v.convertIn depth (ρ.node scope) (ρ.symbol X)).2 := by
  induction depth generalizing w v scope X with
  | zero => exact ⟨rfl, h⟩
  | succ depth ih =>
    unfold Workspace.convertIn
    rw [h.declarationOf?]
    cases w.declarationOf? X with
    | some id => exact ⟨rfl, h⟩
    | none =>
      simp only [Option.map_none, h.store.symbol, Symbol.renumber]
      cases (w.store.symbol X).description with
      | none => exact ⟨rfl, h.report ..⟩
      | some d =>
        simp only [Option.map_some]
        obtain ⟨id, declared⟩ := h.declare scope X d
        have told := declared.announce scope id
        have members : (d.renumber ρ).members = d.members.map ρ.symbol := rfl
        refine ⟨congrArg some id, ?_⟩
        rw [members, List.foldl_map]
        rw [id] at told ⊢
        revert told
        generalize (w.declare scope X d).2.announce scope _ = w
        generalize (v.declare _ _ _).2.announce _ _ = v
        intro told
        induction d.members generalizing w v with
        | nil => exact told
        | cons member members next => exact next _ _ (ih told _ member).2

theorem Mirror.wouldCreate (h : w.Mirror ρ v) (X : SymbolId) : v.wouldCreate (ρ.symbol X) = w.wouldCreate X := by
  unfold Workspace.wouldCreate
  rw [h.declarationOf?, h.store.symbol, Option.isNone_map]
  simp only [Symbol.renumber, Option.isSome_map]

theorem Mirror.convert (h : w.Mirror ρ v) (scope : NodeId) (X : SymbolId) :
    Agree ρ (Option.map ρ.node) (w.convert scope X) (v.convert (ρ.node scope) (ρ.symbol X)) := by
  unfold Workspace.convert
  rw [h.active, h.wouldCreate, h.store.isContainer, h.canAnnounce]
  split
  · exact ⟨rfl, h⟩
  · split
    · exact ⟨rfl, h⟩
    · split
      · refine ⟨rfl, ?_⟩
        unfold Workspace.declareUnheard
        rw [h.store.symbol]
        simp only [Symbol.renumber]
        cases (w.store.symbol X).description with
        | none => exact h
        | some d => exact (h.declare scope X d).2
      · rw [h.store.count]
        obtain ⟨id, converted⟩ := h.convertIn (w.store.symbols.size + 1) scope X
        exact ⟨congrArg some id, converted⟩

end Workspace

end DocTree
