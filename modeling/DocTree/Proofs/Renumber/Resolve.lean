import DocTree.Plugin
import DocTree.Proofs.Outcome
import DocTree.Proofs.Renumber.Convert

/-!
# Resolution under other numbers

* `Progress.Mirror`, `Job.renumber` : the resolution of a module, under other numbers;
* `resolveSymbol_parallel`, `rounds_parallel`, `run_parallel` : its steps end alike;
* `Mirror.resolve` : so do passes, with the same report, renumbered.
-/

namespace DocTree

variable {ρ : Renumbering}

namespace Job

/-- The resolution of the same module. -/
def renumber (ρ : Renumbering) (job : Job) : Job :=
  { job with module := ρ.node job.module, modules := job.modules.map ρ.node }

end Job

/-- The resolution of a module has come as far under other numbers. -/
structure Progress.Mirror (ρ : Renumbering) (p q : Progress) : Prop where
  workspace : p.workspace.Mirror ρ q.workspace
  report : q.report = p.report.renumber ρ
  internal : q.internal = p.internal.map ρ.node

namespace Job

open Workspace

abbrev Alongside {α β : Type} (ρ : Renumbering) (f : α → β) (x : Step α) (y : Step β) : Prop :=
  Parallel (Progress.Mirror ρ) (fun a b => b = f a) x y

abbrev Unison (ρ : Renumbering) (x y : Step Unit) : Prop := Parallel (Progress.Mirror ρ) (fun _ _ => True) x y

theorem onWorkspace_parallel {f g : Workspace → Workspace} (h : ∀ w v, w.Mirror ρ v → (f w).Mirror ρ (g v)) :
    Unison ρ (onWorkspace f) (onWorkspace g) :=
  parallel_modify fun _ _ same => { same with workspace := h _ _ same.workspace }

theorem onReport_parallel {f g : ModuleReport → ModuleReport} (h : ∀ r, g (r.renumber ρ) = (f r).renumber ρ) :
    Unison ρ (onReport f) (onReport g) :=
  parallel_modify fun p _ same => { same with report := (congrArg g same.report).trans (h p.report) }

theorem log_parallel (message message' : Workspace → String) :
    Unison ρ (log message) (log message') :=
  onWorkspace_parallel fun _ _ same => same.report ..

theorem take_parallel {α β : Type} {f : α → β} {x : Except Error α × Workspace} {y : Except Error β × Workspace}
    (agree : Agree ρ f x y) : Alongside ρ f (take x) (take y) := by
  obtain ⟨answer, w⟩ := x
  obtain ⟨answer', v⟩ := y
  obtain ⟨same, mirror⟩ := agree
  have onward : Unison ρ (onWorkspace fun _ => w) (onWorkspace fun _ => v) :=
    onWorkspace_parallel fun _ _ _ => mirror
  cases answer with
  | ok a =>
    cases answer' with
    | ok b => exact parallel_bind onward fun _ _ _ => parallel_pure (Option.some.inj same)
    | error e => cases same
  | error e =>
    cases answer' with
    | ok b => cases same
    | error e' => exact parallel_bind onward fun _ _ _ => parallel_throw

/-! ## Names -/

variable {s t : Store}

theorem holds_mirror (h : s.Mirror ρ t) (module id : NodeId) :
    holds t (ρ.node module) (ρ.node id) = holds s module id := by
  unfold holds
  rw [h.kind, h.childrenOfKind, Bool.eq_iff_iff, List.contains_iff_mem, List.contains_iff_mem,
    List.mem_map_of_injective ρ.node.injective]

theorem ownerAmong_mirror (h : s.Mirror ρ t) (id : NodeId) (modules : List NodeId) :
    ownerAmong t (ρ.node id) (modules.map ρ.node) = (ownerAmong s id modules).map (Option.map ρ.node) := by
  induction modules with
  | nil => rfl
  | cons module modules ih =>
    have inquired : inquire t (ρ.node id) (ρ.node module) = inquire s id module := by
      unfold inquire
      rw [h.isContainer, h.children, List.isEmpty_map, Store.haveFlags_of_empty h.strays,
        Store.haveFlags_of_empty h.strays']
    rw [List.map_cons, ownerAmong, ownerAmong, inquired, holds_mirror h, ih]
    cases inquire s id module with
    | error e => rfl
    | ok _ =>
      show (if holds s module id then Except.ok (some (ρ.node module)) else _) =
        (if holds s module id then Except.ok (some module) else _).map (Option.map ρ.node)
      split <;> rfl

theorem nodeNamed_mirror {w v : Workspace} (h : w.Mirror ρ v) (name : Value) :
    nodeNamed v name = (nodeNamed w name).map (Option.map ρ.node) := by
  unfold nodeNamed
  cases NamePath.ofValue? name with
  | none => rfl
  | some path =>
    simp only
    rw [← h.project_eq, h.store.seek]

/-! ## Steps -/

theorem announce?_agree {w v : Workspace} (h : w.Mirror ρ v) {id id' : NodeId} (here : id' = ρ.node id) :
    Agree ρ (fun u : Unit => u) (w.announce? w.project id) (v.announce? v.project id') := by
  have told := h.announce w.project here
  rw [h.project_eq] at told
  unfold announce?
  rw [h.canAnnounce]
  refine ⟨?_, told⟩
  simp only
  split <;> rfl

theorem internalNamespace_parallel (job : Job) :
    Alongside ρ ρ.node job.internalNamespace (job.renumber ρ).internalNamespace := by
  unfold internalNamespace
  refine parallel_bind parallel_get fun p q same => ?_
  rw [same.internal]
  cases p.internal with
  | some id => exact parallel_pure rfl
  | none =>
    refine parallel_bind (onWorkspace_parallel fun w v same => same.activate job.program) fun _ _ _ => ?_
    refine parallel_bind parallel_get fun p q same => ?_
    have container := same.workspace.store.isContainer job.module
    obtain ⟨id, created⟩ := same.workspace.create job.module .nameSpace job.policy.namespaceName none
    unfold create?
    cases inside : p.workspace.store.isContainer job.module with
    | false =>
      rw [inside] at container
      simp only [renumber, container, Bool.false_eq_true, if_false]
      exact parallel_throw
    | true =>
      rw [inside] at container
      simp only [renumber, container, if_true]
      refine parallel_bind (take_parallel (announce?_agree created id)) fun _ _ _ => ?_
      refine parallel_bind (log_parallel _ _) fun _ _ _ => ?_
      refine parallel_bind (parallel_modify fun p q same => ?_) fun _ _ _ => parallel_pure id
      exact { same with internal := congrArg some id }

theorem synthesize_parallel (job : Job) (X : SymbolId) :
    Unison ρ (job.synthesize X) ((job.renumber ρ).synthesize (ρ.symbol X)) := by
  unfold synthesize
  refine parallel_bind (internalNamespace_parallel job) fun scope _ here => ?_
  subst here
  refine parallel_bind parallel_get fun p q same => ?_
  refine parallel_bind (take_parallel (same.workspace.convert scope X)) fun id _ here => ?_
  subst here
  cases id with
  | none => exact parallel_pure trivial
  | some id =>
    refine parallel_bind (log_parallel _ _) fun _ _ _ => ?_
    refine onReport_parallel fun r => ?_
    simp only [ModuleReport.renumber, List.map_append, List.map_cons, List.map_nil]

theorem link_parallel (job : Job) (X : SymbolId) (id : NodeId) :
    Unison ρ (job.link X id) ((job.renumber ρ).link (ρ.symbol X) (ρ.node id)) := by
  unfold link
  refine parallel_bind parallel_get fun p q same => ?_
  have owner : (job.renumber ρ).owner? q.workspace.store (ρ.node id) =
      (job.owner? p.workspace.store id).map (Option.map ρ.node) := ownerAmong_mirror same.workspace.store id job.modules
  simp only [owner]
  cases job.owner? p.workspace.store id with
  | error e => exact parallel_throw
  | ok owner =>
    cases owner with
    | none =>
      refine parallel_bind (log_parallel _ _) fun _ _ _ => ?_
      refine onReport_parallel fun r => ?_
      simp only [ModuleReport.renumber, List.map_append, List.map_cons, List.map_nil]
    | some owner =>
      refine parallel_bind (onWorkspace_parallel fun w v same => same.register job.module id (some X)) fun _ _ _ => ?_
      refine parallel_bind (log_parallel _ _) fun _ _ _ => ?_
      refine onReport_parallel fun r => ?_
      simp only [ModuleReport.renumber, List.map_append, List.map_cons, List.map_nil]

/-- One symbol is dealt with alike. -/
theorem resolveSymbol_parallel (job : Job) (X : SymbolId) :
    Unison ρ (job.resolveSymbol X) ((job.renumber ρ).resolveSymbol (ρ.symbol X)) := by
  unfold resolveSymbol
  refine parallel_bind parallel_get fun p q same => ?_
  have name : (q.workspace.store.symbol (ρ.symbol X)).name = (p.workspace.store.symbol X).name := by
    rw [same.workspace.store.symbol]
    rfl
  simp only [Symbol.isDefaultExport, name, nodeNamed_mirror same.workspace]
  refine parallel_ite (onReport_parallel fun r => ?_) ?_
  · simp only [ModuleReport.renumber, List.map_append, List.map_cons, List.map_nil]
  · cases nodeNamed p.workspace (p.workspace.store.symbol X).name with
    | error e => exact parallel_throw
    | ok id =>
      cases id with
      | some id => exact link_parallel job X id
      | none =>
        refine parallel_ite (c := job.policy.linkOnly = true) (onReport_parallel fun r => ?_) (synthesize_parallel job X)
        simp only [ModuleReport.renumber, List.map_append, List.map_cons, List.map_nil]

theorem resolveAll_parallel (job : Job) (Xs : List SymbolId) :
    Unison ρ (job.resolveAll Xs) ((job.renumber ρ).resolveAll (Xs.map ρ.symbol)) := by
  induction Xs with
  | nil => exact parallel_pure trivial
  | cons X Xs ih => exact parallel_bind (resolveSymbol_parallel job X) fun _ _ _ => ih

/-! ## Rounds -/

theorem untried_mirror {p q : Progress} (h : p.Mirror ρ q) (job : Job) (tried : List SymbolId) :
    (job.renumber ρ).untried (tried.map ρ.symbol) q = (job.untried tried p).map (List.map ρ.symbol) := by
  unfold untried
  rw [h.internal]
  cases p.internal with
  | none => rfl
  | some id =>
    show (if job.policy.linkOnly then Except.ok [] else _) = (if job.policy.linkOnly then Except.ok [] else _).map _
    split
    · rfl
    · simp only [h.workspace.store.search]
      cases p.workspace.store.search id with
      | error e => rfl
      | ok missing =>
        show Except.ok ((missing.map ρ.symbol).filter fun X => !(tried.map ρ.symbol).contains X) =
          Except.ok ((missing.filter fun X => !tried.contains X).map ρ.symbol)
        rw [List.filter_map]
        refine congrArg (fun found => Except.ok (List.map ρ.symbol found)) (List.filter_congr fun X _ => ?_)
        rw [Function.comp_apply, Bool.eq_iff_iff, Bool.not_eq_true', Bool.not_eq_true', ← Bool.not_eq_true,
          ← Bool.not_eq_true, List.contains_iff_mem, List.contains_iff_mem,
          List.mem_map_of_injective ρ.symbol.injective]

theorem rounds_parallel (job : Job) (n : Nat) (tried missing : List SymbolId) :
    Unison ρ (job.rounds n tried missing)
      ((job.renumber ρ).rounds n (tried.map ρ.symbol) (missing.map ρ.symbol)) := by
  induction n generalizing tried missing with
  | zero => exact parallel_pure trivial
  | succ n ih =>
    cases missing with
    | nil => exact parallel_pure trivial
    | cons X Xs =>
      unfold rounds
      refine parallel_bind (onReport_parallel fun r => rfl) fun _ _ _ => ?_
      refine parallel_bind (resolveAll_parallel job (X :: Xs)) fun _ _ _ => ?_
      refine parallel_bind parallel_get fun p q same => ?_
      have all : tried.map ρ.symbol ++ (X :: Xs).map ρ.symbol = (tried ++ X :: Xs).map ρ.symbol := List.map_append.symm
      rw [List.map_cons] at all ⊢
      simp only [all, untried_mirror same]
      cases job.untried (tried ++ X :: Xs) p with
      | error e => exact parallel_throw
      | ok missing => exact ih (tried ++ X :: Xs) missing

theorem settle_parallel : Unison ρ settle settle := by
  unfold settle
  refine parallel_bind parallel_get fun p q same => ?_
  rw [same.internal]
  cases p.internal with
  | none => exact parallel_pure trivial
  | some id =>
    refine parallel_bind parallel_get fun p q same => ?_
    simp only [same.workspace.store.children, List.isEmpty_map]
    exact parallel_ite (onWorkspace_parallel fun w v same => same.remove id) (onReport_parallel fun r => rfl)

theorem run_parallel (job : Job) (missing : List SymbolId) :
    Unison ρ (job.run missing) ((job.renumber ρ).run (missing.map ρ.symbol)) := by
  unfold run
  refine parallel_bind parallel_get fun p q same => ?_
  rw [same.workspace.store.count]
  exact parallel_bind (rounds_parallel job _ [] missing) fun _ _ _ => settle_parallel

end Job

/-! ## Passes -/

namespace Workspace

variable {w v : Workspace}

theorem Mirror.modules (h : w.Mirror ρ v) : v.modules = w.modules.map ρ.node := by
  unfold Workspace.modules
  rw [← h.project_eq, h.store.childrenOfKind]
  cases w.store.childrenOfKind w.project .module <;> rfl

theorem Mirror.resolveModule (h : w.Mirror ρ v) (job : Job) (missing : List SymbolId) :
    Agree ρ (ModuleReport.renumber ρ) (w.resolveModule job missing)
      (v.resolveModule (job.renumber ρ) (missing.map ρ.symbol)) := by
  unfold Workspace.resolveModule
  have told := h.report .info .resolution
    ((w.store.node job.module).name.text ++ ": " ++ toString missing.length ++ " missing symbol(s)")
    ((v.store.node (job.renumber ρ).module).name.text ++ ": " ++ toString (missing.map ρ.symbol).length
      ++ " missing symbol(s)")
  revert told
  generalize w.report .info .resolution _ = w
  generalize v.report .info .resolution _ = v
  intro told
  have started : Progress.Mirror ρ ⟨w, { module := job.module }, none⟩ ⟨v, { module := (job.renumber ρ).module }, none⟩ :=
    ⟨told, rfl, rfl⟩
  rcases (Job.run_parallel job missing).outcome started with
    ⟨_, p, _, q, eq, eq', _, same⟩ | ⟨e, p, e', q, eq, eq', same⟩
  · simp only [EStateM.run, eq, eq']
    exact ⟨congrArg some same.report, same.workspace.activate none⟩
  · simp only [EStateM.run, eq, eq']
    exact ⟨rfl, same.workspace.activate none⟩

/-- What two operations that end alike come to. -/
theorem Agree.outcome {α β : Type} {f : α → β} {x : Except Error α × Workspace} {y : Except Error β × Workspace}
    (h : Agree ρ f x y) : (∃ a w v, x = (.ok a, w) ∧ y = (.ok (f a), v) ∧ w.Mirror ρ v) ∨
      ∃ e w e' v, x = (.error e, w) ∧ y = (.error e', v) ∧ w.Mirror ρ v := by
  obtain ⟨answer, w⟩ := x
  obtain ⟨answer', v⟩ := y
  obtain ⟨same, mirror⟩ := h
  cases answer with
  | ok a =>
    cases answer' with
    | ok b =>
      cases same
      exact Or.inl ⟨a, w, v, rfl, rfl, mirror⟩
    | error e => cases same
  | error e =>
    cases answer' with
    | ok b => cases same
    | error e' => exact Or.inr ⟨e, w, e', v, rfl, rfl, mirror⟩

theorem Mirror.resolveModules (h : w.Mirror ρ v) {known known' : OrdMap NodeId Value}
    (programs : known.Mirror ρ.node id known') (policy : Policy) (modules rest : List NodeId) :
    Agree ρ (List.map (ModuleReport.renumber ρ)) (resolveModules known policy modules rest w)
      (resolveModules known' policy (modules.map ρ.node) (rest.map ρ.node) v) := by
  induction rest generalizing w v with
  | nil => exact ⟨rfl, h⟩
  | cons module rest ih =>
    rw [List.map_cons]
    unfold Workspace.resolveModules
    rw [h.store.search]
    cases w.store.search module with
    | error e => exact ⟨rfl, h⟩
    | ok missing =>
      cases missing with
      | nil => exact ih h
      | cons X Xs =>
        have program : known'.find? (ρ.node module) = known.find? module := by
          rw [programs module, Option.map_id]
          rfl
        have agree := h.resolveModule ⟨module, modules, known.find? module, policy⟩ (X :: Xs)
        simp only [Except.map, List.map_cons, program]
        rcases agree.outcome with ⟨r, w, v, eq, eq', mirror⟩ | ⟨e, w, e', v, eq, eq', mirror⟩
        · simp only [Job.renumber, List.map_cons] at eq'
          rw [eq, eq']
          rcases (ih mirror).outcome with ⟨rs, w, v, eq, eq', mirror⟩ | ⟨e, w, e', v, eq, eq', mirror⟩
          · simp only [eq, eq']
            exact ⟨rfl, mirror⟩
          · simp only [eq, eq']
            exact ⟨rfl, mirror⟩
        · simp only [Job.renumber, List.map_cons] at eq'
          rw [eq, eq']
          exact ⟨rfl, mirror⟩

theorem Mirror.resolvePass (h : w.Mirror ρ v) {known known' : OrdMap NodeId Value}
    (programs : known.Mirror ρ.node id known') (policy : Policy) :
    Agree ρ (List.map (ModuleReport.renumber ρ)) (w.resolvePass known policy) (v.resolvePass known' policy) := by
  unfold Workspace.resolvePass hasModules
  rw [Store.haveFlags_of_empty h.store.strays, Store.haveFlags_of_empty h.store.strays', h.modules]
  simp only [Bool.not_true, Bool.false_eq_true, if_false]
  rcases (h.resolveModules programs policy w.modules w.modules).outcome with
    ⟨rs, w, v, eq, eq', mirror⟩ | ⟨e, w, e', v, eq, eq', mirror⟩
  · simp only [eq, eq']
    exact ⟨rfl, mirror.report ..⟩
  · simp only [eq, eq']
    exact ⟨rfl, mirror⟩

theorem Mirror.pluginPass (h : w.Mirror ρ v) :
    Agree ρ (List.map (ModuleReport.renumber ρ)) w.pluginPass v.pluginPass := by
  unfold Workspace.pluginPass policy
  rw [h.settings]
  split
  · exact ⟨rfl, h⟩
  · rename_i policy _
    have agree := h.resolvePass h.known policy
    exact ⟨agree.1, { agree.2 with known := OrdMap.mirror_empty }⟩

theorem Mirror.startPasses (h : w.Mirror ρ v) (last : Option Report) (listeners : List Listener) :
    Agree ρ (Option.map (List.map (ModuleReport.renumber ρ))) (w.startPasses last listeners)
      (v.startPasses (last.map (List.map (ModuleReport.renumber ρ))) listeners) := by
  induction listeners generalizing w v last with
  | nil => exact ⟨rfl, h⟩
  | cons listener listeners ih =>
    unfold Workspace.startPasses
    cases listener.reaction with
    | resolve =>
      simp only
      rcases h.pluginPass.outcome with ⟨rs, w, v, eq, eq', mirror⟩ | ⟨e, w, e', v, eq, eq', mirror⟩
      · simp only [eq, eq']
        exact ih mirror (some rs)
      · simp only [eq, eq']
        exact ⟨rfl, mirror⟩
    | note tag =>
      have noted : (w.noteCall tag [scopeWord]).Mirror ρ (v.noteCall tag [scopeWord]) := { h with }
      exact ih noted last
    | trackProgram => exact ⟨rfl, h⟩
    | noteCreation => exact ⟨rfl, h⟩

/-- A pass ends alike under other numbers: with the same report, renumbered, or with an error in both. -/
theorem Mirror.resolve (h : w.Mirror ρ v) :
    Agree ρ (Option.map (List.map (ModuleReport.renumber ρ))) w.resolve v.resolve := by
  have told := h.report .info .options ("resolving project " ++ (w.store.node w.project).name.display)
    ("resolving project " ++ (v.store.node v.project).name.display)
  unfold Workspace.resolve reacting?
  simp only [told.listeners]
  cases Listener.toEvent? _ resolutionEvent with
  | none => exact ⟨rfl, told⟩
  | some listeners => exact told.startPasses none listeners

theorem Mirror.setOptions (h : w.Mirror ρ v) (options : List (String × Value)) :
    (v.setOptions options).1 = (w.setOptions options).1 ∧ (w.setOptions options).2.Mirror ρ (v.setOptions options).2 := by
  induction options generalizing w v with
  | nil => exact ⟨rfl, h⟩
  | cons option options ih =>
    unfold Workspace.setOptions setOption
    rw [h.settings]
    cases w.settings.set (.str option.1) option.2 with
    | error e => exact ⟨rfl, h⟩
    | ok settings => exact ih { h with settings := rfl }

end Workspace

end DocTree
