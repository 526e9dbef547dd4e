import DocTree.Proofs.Resolve.Rounds
import DocTree.Proofs.Workspace.Remove

/-!
# The turn of a module

* `Settles p q` : the namespace is kept, removed, or was never there;
* `Job.plan`, `Job.calls` : the symbols that a run resolves; `perform_plan`, `run_meets` : what it comes to;
* `Turn job w r w'` : a module's turn, from its first round to its report;
* `resolveModule_cases` : what `resolveModule` does is a turn, unless the module stalls;
* `Passed g policy modules w w'` : what a pass that has gone through some modules leaves alone;
  `Turn.passed`.
-/

namespace DocTree

open Workspace

variable {g : Ground} {job : Job} {start p q : Progress} {tried : List SymbolId} {symbol : SymbolId}

/-! ## Settling -/

/-- What happens to the namespace in the end. -/
inductive Settles (p : Progress) : Progress → Prop
  | bare : p.internal = none → Settles p p
  | kept {id : NodeId} : p.internal = some id → p.workspace.store.children id ≠ [] →
      Settles p { p with report := { p.report with created := some id } }
  | pruned {id : NodeId} : p.internal = some id → p.workspace.store.children id = [] →
      Settles p { p with workspace := p.workspace.remove id }

theorem settle_meets (p : Progress) (R : Error → Progress → Prop) : Meets Job.settle p (fun _ q => Settles p q) R := by
  unfold Job.settle
  refine meets_bind (P := fun q q' => q = p ∧ q' = p) (meets_get ⟨rfl, rfl⟩) fun q q' eq => ?_
  rw [eq.1, eq.2]
  cases internal : p.internal with
  | none => exact meets_pure (.bare internal)
  | some id =>
    refine meets_bind (P := fun q q' => q = p ∧ q' = p) (meets_get ⟨rfl, rfl⟩) fun q q' eq => ?_
    rw [eq.1, eq.2]
    split
    · rename_i empty
      exact meets_modify (.pruned internal (List.isEmpty_iff.1 empty))
    · rename_i some
      exact meets_modify (.kept internal fun empty => some (by rw [empty]; rfl))

/-! ## Runs -/

/-- The symbols that a run resolves, round by round. -/
def Job.plan (job : Job) (start : Progress) : List (List SymbolId) :=
  job.batches (start.workspace.store.symbols.size + 1) [] (start.workspace.store.missing job.module) start

/-- The symbols that a run resolves, in order. -/
def Job.calls (job : Job) (start : Progress) : List SymbolId := (job.plan start).flatten

/-- A run that ends well resolves just its plan, and then settles. -/
theorem perform_plan (ok : job.run (start.workspace.store.missing job.module) start = .ok () q) :
    (do job.perform (job.plan start); Job.settle : Job.Step Unit) start = .ok () q := by
  have ok : EStateM.bind (job.rounds (start.workspace.store.symbols.size + 1) []
    (start.workspace.store.missing job.module)) (fun _ => Job.settle) start = .ok () q := ok
  show EStateM.bind (job.perform (job.plan start)) (fun _ => Job.settle) start = _
  unfold EStateM.bind at ok ⊢
  cases first : job.rounds (start.workspace.store.symbols.size + 1) []
      (start.workspace.store.missing job.module) start with
  | error e p =>
    rw [first] at ok
    cases ok
  | ok _ p =>
    rw [first] at ok
    rw [show job.perform (job.plan start) start = _ from Job.perform_batches first]
    exact ok

theorem Catalog.top_le {s : Store} (h : Catalog g s) : g.top ≤ s.symbols.size := by
  by_contra more
  exact absurd (h.named (Nat.lt_of_not_le more)).1 (Nat.lt_irrefl _)

/-- What a run comes to: everything that was found missing is resolved, and so is everything that
turned up in the namespace, unless the module gets stuck. -/
theorem run_meets (h : Fits g job start) (fresh : start.internal = none)
    (some : start.workspace.store.missing job.module ≠ []) :
    Meets (job.run (start.workspace.store.missing job.module)) start (fun _ q => ∃ p,
      Course job start (job.calls start) [] p ∧ job.untried (job.calls start) p = .ok [] ∧ Settles p q)
      (Halted job start) := by
  unfold Job.run
  refine meets_bind (P := fun p p' => p = start ∧ p' = start) (meets_get ⟨rfl, rfl⟩) fun p p' eq => ?_
  rw [eq.1, eq.2]
  refine meets_bind (rounds_meets h fresh (Or.inr ⟨some, .start⟩) ?_) fun _ p ⟨course, done⟩ => ?_
  · exact Nat.lt_succ_of_le h.sound.catalog.top_le
  · rw [List.nil_append] at course done
    exact (settle_meets p _).mono (fun _ q settles => ⟨p, course, done, settles⟩) fun _ _ halts => halts

/-! ## What a run leaves alone -/

/-- What a pass leaves alone when it has gone through some modules. -/
structure Passed (g : Ground) (policy : Policy) (modules : List NodeId) (w w' : Workspace) : Prop where
  sound : Sound g w'
  symbols : w'.store.symbols = w.store.symbols
  settings : w'.settings = w.settings
  inactive : w.active = none → w'.active = none
  containers : ∀ {id}, w.store.isContainer id = true → w'.store.isContainer id = true
  outgrows : ∀ label, (policy.linkOnly = false → policy.namespaceName = label) → w.store.Outgrows w'.store label
  same : ∀ {id}, id < w.store.nodes.size → id ∉ modules → w'.store.node id = w.store.node id
  bound : ∀ {symbol id}, w.nodeOf? symbol = some id → w'.nodeOf? symbol = some id

namespace Passed

variable {policy : Policy} {modules modules' : List NodeId} {w w₁ w₂ : Workspace}

theorem refl (h : Sound g w) (policy : Policy) (modules : List NodeId) : Passed g policy modules w w :=
  ⟨h, rfl, rfl, fun here => here, fun here => here, fun _ _ => .refl _ _, fun _ _ => rfl, fun here => here⟩

theorem trans (h : Passed g policy modules w w₁) (h' : Passed g policy modules' w₁ w₂) :
    Passed g policy (modules ++ modules') w w₂ where
  sound := h'.sound
  symbols := h'.symbols.trans h.symbols
  settings := h'.settings.trans h.settings
  inactive := fun here => h'.inactive (h.inactive here)
  containers := fun here => h'.containers (h.containers here)
  outgrows := fun label called => (h.outgrows label called).trans (h'.outgrows label called)
  same := fun {id} inside other => by
    rw [List.mem_append, not_or] at other
    have inside' := Nat.lt_of_lt_of_le inside (h.outgrows policy.namespaceName fun _ => rfl).size
    rw [h'.same inside' other.2, h.same inside other.1]
  bound := fun here => h'.bound (h.bound here)

theorem quiet (h : Sound g w) (q : Quiet w w₁) (policy : Policy) : Passed g policy [] w w₁ where
  sound := h.quiet q
  symbols := congrArg Store.symbols q.store
  settings := q.settings
  inactive := fun here => q.active.trans here
  containers := fun here => q.store.symm ▸ here
  outgrows := fun _ _ => q.store ▸ .refl _ _
  same := fun _ _ => by rw [q.store]
  bound := fun here => (q.nodeOf? _).trans here

end Passed

theorem Underway.isContainer (h : Underway g job start.workspace tried p) {id : NodeId}
    (container : start.workspace.store.isContainer id = true) : p.workspace.store.isContainer id = true := by
  have inside : id < start.workspace.store.nodes.size := Store.lt_of_isContainer container
  by_cases here : id = job.module
  · rw [here, Store.isContainer, h.module, Node.giveChildren_body, Node.isContainer_mapChildren]
    exact here ▸ container
  · rw [Store.isContainer, h.same inside here]
    exact container

theorem Underway.child (h : Underway g job start.workspace tried p) {id : NodeId} (internal : p.internal = some id) :
    id ∈ p.workspace.store.children job.module := by
  have container := h.fits.containers _ h.fits.module
  rw [Store.isContainer, h.module, Node.giveChildren_body, Node.isContainer_mapChildren] at container
  rw [Store.children, h.module, Node.giveChildren_body, Body.children_mapChildren container, internal]
  exact List.mem_append_right _ (List.mem_singleton_self _)

/-- A namespace that stays empty can be removed. -/
theorem Underway.removable (h : Underway g job start.workspace tried p) {id : NodeId} (internal : p.internal = some id)
    (empty : p.workspace.store.children id = []) : Removable g p.workspace.store job.module id where
  proper := h.fits.proper
  child := h.child internal
  bare := by
    obtain ⟨_, children, eq⟩ := h.internal internal
    rw [Store.children, eq] at empty
    rw [eq, show children = [] from empty]

theorem Underway.node_pruned (h : Underway g job start.workspace tried p) (sound : Sound g start.workspace)
    {id : NodeId} (internal : p.internal = some id) (empty : p.workspace.store.children id = []) {id' : NodeId}
    (inside : id' < start.workspace.store.nodes.size) :
    (p.workspace.remove id).store.node id' = start.workspace.store.node id' := by
  have above := (h.internal internal).1
  rw [((h.removable internal empty).cut h.fits.sound.layout).node,
    if_neg (Nat.ne_of_lt (Nat.lt_of_lt_of_le inside above))]
  by_cases here : id' = job.module
  · have fresh : id ∉ start.workspace.store.children job.module := fun mem =>
      absurd (sound.layout.child h.fits.proper mem).2.1 (Nat.not_lt_of_le above)
    rw [if_pos here, here, h.module, internal]
    exact Node.erase_giveChildren fresh
  · rw [if_neg here, h.same inside here]

/-- What the run of a module leaves alone. -/
theorem Underway.passed (h : Underway g job start.workspace tried p) (sound : Sound g start.workspace)
    (settles : Settles p q) : Passed g job.policy [job.module] start.workspace (q.workspace.activate none) := by
  have whole : Passed g job.policy [job.module] start.workspace (p.workspace.activate none) := by
    refine ⟨h.fits.sound.activate none, h.symbols, h.settings, fun _ => rfl, h.isContainer, fun label called => ?_,
      fun inside other => ?_, h.bound⟩
    · have grown := h.outgrows label called
      exact ⟨grown.size, grown.name, grown.kind, grown.children, grown.fresh⟩
    · exact h.same inside fun here => other (List.mem_singleton.2 here)
  cases settles with
  | bare => exact whole
  | kept => exact whole
  | @pruned id internal empty =>
    have removable := h.removable internal empty
    have inside := removable.inside h.fits.sound.layout
    have above := (h.internal internal).1
    have kept := kept_remove p.workspace id
    have node : ∀ {id'}, id' < start.workspace.store.nodes.size →
      (p.workspace.remove id).store.node id' = start.workspace.store.node id' := h.node_pruned sound internal empty
    refine ⟨(h.fits.sound.remove removable).activate none, kept.symbols.trans h.symbols, kept.settings.trans h.settings,
      fun _ => rfl, fun {id'} container => ?_, fun _ _ => ⟨?_, ?_, ?_, ?_, ?_⟩, fun inside _ => node inside,
      fun {symbol id'} eq => ?_⟩
    · have inside : id' < start.workspace.store.nodes.size := Store.lt_of_isContainer container
      show (p.workspace.remove id).store.isContainer id' = true
      rw [Store.isContainer, node inside]
      exact container
    · exact (size_remove p.workspace id).symm ▸ h.size_le
    · exact fun inside => congrArg Node.name (node inside)
    · exact fun inside => congrArg Node.kind (node inside)
    · exact fun inside => ⟨[], by
        rw [List.append_nil]
        exact congrArg (fun n : Node => n.body.children) (node inside), List.forall_mem_nil _⟩
    · intro id' c outside mem
      have mem : c ∈ (p.workspace.remove id).store.children id' := mem
      rw [removable.children h.fits.sound.layout] at mem
      split at mem
      · rename_i here
        exact absurd (here ▸ h.module_lt) (Nat.not_lt_of_le outside)
      · exact h.children outside mem
    · show (p.workspace.remove id).nodeOf? symbol = _
      rw [nodeOf?_remove h.fits.sound.consistent inside removable.bare, if_neg, h.bound eq]
      rw [h.bound eq]
      rintro ⟨⟩
      exact absurd (sound.bound eq).2.1 (Nat.not_lt_of_le above)

/-- In the end nodes still have their names and their kinds. -/
theorem Underway.label (h : Underway g job start.workspace tried p) (settles : Settles p q) (id : NodeId) :
    q.workspace.store.nodes.size = p.workspace.store.nodes.size ∧
      (q.workspace.store.node id).name = (p.workspace.store.node id).name ∧
      (q.workspace.store.node id).kind = (p.workspace.store.node id).kind := by
  cases settles with
  | bare => exact ⟨rfl, rfl, rfl⟩
  | kept => exact ⟨rfl, rfl, rfl⟩
  | @pruned id' internal empty =>
    refine ⟨size_remove .., ?_⟩
    rw [((h.removable internal empty).cut h.fits.sound.layout).node]
    split
    · rename_i here
      rw [here]
      exact ⟨rfl, rfl⟩
    · split
      · rename_i above
        rw [above]
        exact ⟨rfl, rfl⟩
      · exact ⟨rfl, rfl⟩

/-- In the end a symbol still has its node, unless that was the namespace. -/
theorem Underway.settled (h : Underway g job start.workspace tried p) (settles : Settles p q) {id : NodeId}
    (bound : p.workspace.nodeOf? symbol = some id) : q.workspace.nodeOf? symbol = some id ∨ p.internal = some id := by
  cases settles with
  | bare => exact Or.inl bound
  | kept => exact Or.inl bound
  | @pruned id' internal empty =>
    have removable := h.removable internal empty
    by_cases here : id = id'
    · exact Or.inr (here ▸ internal)
    · refine Or.inl ((nodeOf?_remove h.fits.sound.consistent (removable.inside h.fits.sound.layout) removable.bare
        symbol).trans ?_)
      rw [if_neg, bound]
      rw [bound]
      rintro ⟨⟩
      exact here rfl

/-! ## Turns -/

/-- The state in which the turn of a module begins. -/
def Job.begin (job : Job) (w : Workspace) : Progress := ⟨w, { module := job.module }, none⟩

/-- The state in which the rounds for a module begin, after a line in the log. -/
def Job.opening (job : Job) (w : Workspace) : Progress :=
  job.begin (w.report .info .resolution ((w.store.node job.module).name.text ++ ": " ++
    toString (w.store.missing job.module).length ++ " missing symbol(s)"))

inductive Turn (job : Job) (w : Workspace) : ModuleReport → Workspace → Prop
  | mk {u : Workspace} {p q : Progress} : Quiet w u →
      Course job (job.begin u) (job.calls (job.begin u)) [] p → job.untried (job.calls (job.begin u)) p = .ok [] →
      Settles p q → Turn job w q.report (q.workspace.activate none)

/-- The turn of a module comes to a symbol that the module is stuck with. -/
def Stalls (job : Job) (w : Workspace) : Prop := ∃ u, Quiet w u ∧ Halts job (job.begin u)

/-- The turn of a module breaks off at such a symbol. -/
inductive Stalled (job : Job) (w : Workspace) : Workspace → Prop
  | mk {u : Workspace} {e : Error} {q : Progress} : Quiet w u → Halted job (job.begin u) e q →
      Stalled job w (q.workspace.activate none)

variable {w w' : Workspace} {r : ModuleReport}

theorem Stalled.stalls (h : Stalled job w w') : Stalls job w := by
  obtain ⟨quiet, halted⟩ := h
  exact ⟨_, quiet, halted.halts⟩

theorem Fits.quiet (h : Fits g job (job.begin w)) (q : Quiet w w') : Fits g job (job.begin w') where
  sound := h.sound.quiet q
  containers := fun m mem => q.store.symm ▸ h.containers m mem
  module := h.module
  proper := h.proper
  internal := nofun

theorem resolveModule_eq (w : Workspace) (job : Job) : w.resolveModule job (w.store.missing job.module) =
    match job.run (w.store.missing job.module) (job.opening w) with
    | .ok _ p => (.ok p.report, p.workspace.activate none)
    | .error e p => (.error e, p.workspace.activate none) := rfl

/-- Resolving a module is a turn, unless the module stalls. -/
theorem resolveModule_cases (h : Fits g job (job.begin w)) (some : w.store.missing job.module ≠ []) :
    (∃ r w', w.resolveModule job (w.store.missing job.module) = (.ok r, w') ∧ Turn job w r w') ∨
      ∃ w', w.resolveModule job (w.store.missing job.module) = (.error .noActiveProgram, w') ∧ Stalled job w w' := by
  have quiet : Quiet w (job.opening w).workspace := quiet_report ..
  have fits : Fits g job (job.opening w) := h.quiet quiet
  have met := run_meets fits rfl some
  rw [resolveModule_eq]
  cases ran : job.run (w.store.missing job.module) (job.opening w) with
  | ok _ p =>
    obtain ⟨p', course, done, settles⟩ := met.of_ok ran
    exact Or.inl ⟨_, _, rfl, .mk quiet course done settles⟩
  | error e p =>
    have halted := met.of_error ran
    obtain ⟨_, _, _, _, _, breaks⟩ := id halted
    exact Or.inr ⟨_, by rw [breaks.error], .mk quiet halted⟩

/-- What the turn of a module leaves alone. -/
theorem Turn.passed (turn : Turn job w r w') (h : Fits g job (job.begin w)) : Passed g job.policy [job.module] w w' := by
  obtain ⟨q, course, _, settles⟩ := turn
  have fits := h.quiet q
  exact (Passed.quiet h.sound q job.policy).trans ((course.underway fits rfl).1.passed fits.sound settles)

end DocTree
