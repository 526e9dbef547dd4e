import DocTree.Proofs.Convert.Converts
import DocTree.Proofs.Store.Lookup

/-!
# Conversion with an observer

An observer takes down all declarations that are created, each with the program that is active then. Nothing else is
different with him.

* `observed w seen` : the workspace `w` with an observer who has taken down `seen`;
* `announce_observed` : he takes down what is announced; other operations go unnoticed;
* `Witnessed w scope w' new` : on the way from `w` to `w'` only creations below `scope` were taken down, all while the
  program of `w` was active;
* `convertIn_observed`, `convert_observed` : it is so when a symbol is converted.
-/

namespace DocTree.Workspace

/-- A listener who takes down creations. -/
def observer : Listener := ⟨creationEvent, .int 0, .noteCreation⟩

/-- The same workspace with an observer, and with what he has taken down. -/
def observed (w : Workspace) (seen : List Creation) : Workspace :=
  { w with listeners := w.listeners ++ [observer], creations := seen }

theorem listen_observer (w : Workspace) : w.listen creationEvent (.int 0) .noteCreation = w.observed w.creations := rfl

variable {g : Ground} {w w₁ w₂ : Workspace} {scope a b : NodeId} {roots : List SymbolId} {symbol : SymbolId}
  {seen new new' : List Creation}

/-! ## Announcements -/

theorem HasPluginOnly.reacting_observed (h : w.HasPluginOnly) (seen : List Creation) :
    (w.observed seen).reacting? creationEvent = some [⟨creationEvent, .int 0, .trackProgram⟩, observer] := by
  unfold reacting? observed
  rw [h]
  rfl

/-- The observer takes down what is announced. -/
theorem announce_observed (h : w.HasPluginOnly) (scope id : NodeId) (seen : List Creation) :
    (w.observed seen).announce scope id =
      (w.announce scope id).observed (seen ++ [⟨scope, id, (w.store.node id).name, w.active⟩]) := by
  unfold announce
  rw [h.reacting_observed, h.reacting_creation]
  simp only [Option.getD_some, List.foldl_cons, List.foldl_nil, observer, reactToCreation]
  cases active : w.active with
  | none => simp only [report, observed, active]
  | some program =>
    simp only [report, observed, active]
    split <;> rfl

theorem canAnnounce_observed (h : w.HasPluginOnly) (seen : List Creation) :
    (w.observed seen).canAnnounce = true := by
  unfold canAnnounce
  rw [h.reacting_observed]
  rfl

/-! ## Operations that go unnoticed -/

theorem create_observed (w : Workspace) (seen : List Creation) (scope : NodeId) (kind : Kind) (name : Value)
    (symbol : Option SymbolId) : (w.observed seen).create scope kind name symbol =
      ((w.create scope kind name symbol).1, (w.create scope kind name symbol).2.observed seen) := by
  cases symbol <;> rfl

theorem addParts_observed (w : Workspace) (seen : List Creation) (ns : List Node) :
    (w.observed seen).addParts ns = ((w.addParts ns).1, (w.addParts ns).2.observed seen) := by
  induction ns generalizing w with
  | nil => rfl
  | cons n ns ih =>
    have first : (w.observed seen).addPart n = ((w.addPart n).1, (w.addPart n).2.observed seen) := rfl
    simp only [addParts, first, ih]

theorem addSignature_observed (w : Workspace) (seen : List Creation) (parent : NodeId) (shape : SignatureShape) :
    (w.observed seen).addSignature parent shape =
      ((w.addSignature parent shape).1, (w.addSignature parent shape).2.observed seen) := by
  have same : ∀ store, { w.observed seen with store := store } = { w with store := store }.observed seen := fun _ => rfl
  have store : (w.observed seen).store = w.store := rfl
  unfold addSignature
  simp only [store, same, addParts_observed]
  rfl

theorem addSignatures_observed (w : Workspace) (seen : List Creation) (parent : NodeId) (shapes : List SignatureShape) :
    (w.observed seen).addSignatures parent shapes =
      ((w.addSignatures parent shapes).1, (w.addSignatures parent shapes).2.observed seen) := by
  induction shapes generalizing w with
  | nil => rfl
  | cons shape shapes ih => simp only [addSignatures, addSignature_observed, ih]

theorem populate_observed (w : Workspace) (seen : List Creation) (id : NodeId) (d : Description) :
    (w.observed seen).populate id d = (w.populate id d).observed seen := by
  unfold populate
  simp only [addParts_observed, addSignatures_observed]
  rfl

theorem reportForeign_observed (w : Workspace) (seen : List Creation) (symbol : Symbol) :
    (w.observed seen).reportForeign symbol = (w.reportForeign symbol).observed seen := by
  have active : (w.observed seen).active = w.active := rfl
  unfold reportForeign
  rw [active]
  cases symbol.program.any fun program => !w.active.any program.same <;> rfl

theorem declare_observed (w : Workspace) (seen : List Creation) (scope : NodeId) (symbol : SymbolId) (d : Description) :
    (w.observed seen).declare scope symbol d =
      ((w.declare scope symbol d).1, (w.declare scope symbol d).2.observed seen) := by
  have store : (w.observed seen).store = w.store := rfl
  unfold declare
  simp only [store, reportForeign_observed, create_observed, populate_observed]

/-! ## What is created where -/

/-- An extension takes no children away. -/
theorem Extends.mem_children (h : Extends w scope roots w₁) (mem : b ∈ w.store.children a) :
    b ∈ w₁.store.children a := by
  by_cases here : a = scope
  · subst here
    obtain ⟨ids, _, eq⟩ := h.widened
    have container : (w.store.node a).body.isContainer = true := Store.isContainer_of_mem_children mem
    rw [Store.children, eq, Node.giveChildren_body, Body.children_mapChildren container]
    exact List.mem_append_left _ mem
  · have inside : a < w.store.nodes.size := Store.lt_of_isContainer (Store.isContainer_of_mem_children mem)
    rwa [Store.children, h.same inside here]

theorem Extends.below (h : Extends w scope roots w₁) (way : w.store.Below a b) : w₁.store.Below a b :=
  Relation.ReflTransGen.mono (fun _ _ mem => h.mem_children mem) _ _ way

/-- All creations that were taken down on the way are below a scope, and the program that was active first was
active at each of them. -/
def Witnessed (w : Workspace) (scope : NodeId) (w' : Workspace) (new : List Creation) : Prop :=
  ∀ c ∈ new, c.program = w.active ∧ w'.store.Below scope c.id

theorem Witnessed.nil (w : Workspace) (scope : NodeId) (w' : Workspace) : Witnessed w scope w' [] :=
  List.forall_mem_nil _

theorem Witnessed.append (h : Witnessed w scope w₁ new) (h' : Witnessed w₁ scope w₂ new')
    (first : Extends w scope roots w₁) {roots' : List SymbolId} (rest : Extends w₁ scope roots' w₂) :
    Witnessed w scope w₂ (new ++ new') := by
  intro c mem
  rcases List.mem_append.1 mem with mem | mem
  · exact ⟨(h c mem).1, rest.below (h c mem).2⟩
  · exact ⟨(h' c mem).1.trans first.kept.active, (h' c mem).2⟩

/-! ## Conversion -/

/-- Conversion up to a depth is the same with an observer, who takes down the creations. -/
def ObservedAt (g : Ground) (depth : Nat) : Prop :=
  ∀ {w : Workspace} {scope : NodeId} {symbol : SymbolId}, Hosts g w scope [symbol] → w.unbound.card < depth →
    ∀ seen : List Creation, ∃ new,
      convertIn depth (w.observed seen) scope symbol =
        ((convertIn depth w scope symbol).1, (convertIn depth w scope symbol).2.observed (seen ++ new)) ∧
      Witnessed w scope (convertIn depth w scope symbol).2 new

/-- The members of a declaration are converted one by one. -/
theorem ObservedAt.members {depth : Nat} (each : ObservedAt g depth) {members : List SymbolId}
    (hosts : Hosts g w scope members) (enough : w.unbound.card < depth) (seen : List Creation) : ∃ new,
      members.foldl (fun w member => (convertIn depth w scope member).2) (w.observed seen) =
        (members.foldl (fun w member => (convertIn depth w scope member).2) w).observed (seen ++ new) ∧
      Witnessed w scope (members.foldl (fun w member => (convertIn depth w scope member).2) w) new ∧
      ∃ roots, Extends w scope roots (members.foldl (fun w member => (convertIn depth w scope member).2) w) := by
  induction members generalizing w seen with
  | nil => exact ⟨[], by rw [List.append_nil]; rfl, Witnessed.nil w scope _, [], (Quiet.refl w).extends scope⟩
  | cons member members ih =>
    have single : Hosts g w scope [member] := ⟨hosts.sound, hosts.proper, hosts.container,
      fun symbol mem => hosts.place symbol (List.mem_singleton.1 mem ▸ List.mem_cons_self)⟩
    have converts := (converts_convertIn depth single enough).1
    have spec := converts.spec single
    obtain ⟨first, eq, witnessed⟩ := each single enough seen
    obtain ⟨others, eq', witnessed', roots, ext⟩ := ih (hosts.rest spec.sound spec.ext)
      (Nat.lt_of_le_of_lt (single.card_unbound_le converts) enough) (seen ++ first)
    refine ⟨first ++ others, ?_, witnessed.append witnessed' spec.ext ext, _, spec.ext.trans ext⟩
    rw [List.foldl_cons, List.foldl_cons, eq, eq', List.append_assoc]

variable (g) in
/-- With an observer the same is converted, and he takes down the creations. -/
theorem convertIn_observed (depth : Nat) : ObservedAt g depth := by
  induction depth with
  | zero => exact fun _ enough => absurd enough (Nat.not_lt_zero _)
  | succ depth ih =>
    intro w scope symbol hosts enough seen
    have declared : (w.observed seen).declarationOf? symbol = w.declarationOf? symbol := rfl
    have store : (w.observed seen).store = w.store := rfl
    have eq := hosts.sound.declarationOf?_eq symbol
    unfold convertIn
    rw [declared, store]
    cases here : w.nodeOf? symbol with
    | some id =>
      rw [here] at eq
      rw [eq]
      exact ⟨[], by rw [List.append_nil], Witnessed.nil w scope _⟩
    | none =>
      rw [here] at eq
      rw [eq]
      cases described : (w.store.symbol symbol).description with
      | none =>
        simp only [described]
        exact ⟨[], by rw [List.append_nil]; rfl, Witnessed.nil w scope _⟩
      | some d =>
        have fewer := hosts.card_unbound_lt here described
        have made := declared_declare w hosts.inside symbol d
        have plugin : (w.declare scope symbol d).2.HasPluginOnly := made.kept.listeners.trans hosts.sound.plugin
        have inner := (hosts.declared here described).quiet (quiet_announce _ scope w.store.nodes.size)
        obtain ⟨new, eq', witnessed, roots, ext'⟩ := ih.members inner (by omega) (seen ++ [⟨scope, w.store.nodes.size,
          ((w.declare scope symbol d).2.store.node w.store.nodes.size).name, (w.declare scope symbol d).2.active⟩])
        simp only [described, declare_fst, declare_observed, announce_observed plugin]
        refine ⟨_ :: new, by rw [eq', List.append_assoc]; rfl, List.forall_mem_cons.2 ⟨⟨made.kept.active, ?_⟩, ?_⟩⟩
        all_goals
          have child : w.store.nodes.size ∈
              ((w.declare scope symbol d).2.announce scope w.store.nodes.size).store.children scope := by
            rw [(quiet_announce ..).store, made.sprouts.children hosts.container, if_pos rfl]
            exact List.mem_append_right _ (List.mem_singleton_self _)
        · exact .single (ext'.mem_children child)
        · intro c mem
          obtain ⟨program, way⟩ := witnessed c mem
          refine ⟨program.trans ((quiet_announce ..).active.trans made.kept.active), ?_⟩
          exact .head (ext'.mem_children child) way

theorem convert_observed (hosts : Hosts g w scope [symbol]) (active : w.active.isSome) (seen : List Creation) :
    ∃ id? w' new, w.convert scope symbol = (.ok id?, w') ∧ Converts w scope [symbol] w' ∧
      (w.observed seen).convert scope symbol = (.ok id?, w'.observed (seen ++ new)) ∧ Witnessed w scope w' new := by
  have enough := Nat.lt_succ_of_le (card_unbound_le w)
  obtain ⟨converts, _⟩ := converts_convertIn (w.store.symbols.size + 1) hosts enough
  obtain ⟨new, eq, witnessed⟩ := convertIn_observed g (w.store.symbols.size + 1) hosts enough seen
  have running : w.active.isNone = false := by simpa [Option.isSome_iff_ne_none] using active
  have store : (w.observed seen).store = w.store := rfl
  have created : (w.observed seen).wouldCreate symbol = w.wouldCreate symbol := rfl
  refine ⟨(convertIn (w.store.symbols.size + 1) w scope symbol).1, _, new, ?_, converts, ?_, witnessed⟩
  · unfold convert
    simp only [running, hosts.container, canAnnounce_of_plugin hosts.sound.plugin, Bool.not_true, Bool.and_false,
      Bool.false_eq_true, if_false]
  · have running' : (w.observed seen).active.isNone = false := running
    unfold convert
    simp only [running', store, created, hosts.container, canAnnounce_observed hosts.sound.plugin, Bool.not_true,
      Bool.and_false, Bool.false_eq_true, if_false, eq]

end DocTree.Workspace
