import DocTree.Proofs.Convert.Observed
import DocTree.Proofs.Resolve.Turns

/-!
# Resolution with an observer

* `Echo job p q new` : on the way from `p` to `q` the creations `new` were taken down, all of them in the namespace for
  the module, while its program was active;
* `Echoes job x p` : with an observer the step `x` does the same from `p` on; `Echoes.bind`, …;
* `resolveSymbol_echoes`, `rounds_echoes` : all steps of a run do;
* `Attended w policy m new` : what was taken down in the turn of the module `m`;
* `resolveModules_observed`, `resolve_observed` : a pass with an observer, turn by turn.
-/

namespace DocTree

open Workspace

/-- The same with an observer, and with what he has taken down. -/
def Progress.observed (p : Progress) (seen : List Creation) : Progress :=
  { p with workspace := p.workspace.observed seen }

/-- What was taken down on the way from `p` to `q`: creations of the namespace for the module and of declarations
below it, all while the program of the module was active. -/
structure Echo (job : Job) (p q : Progress) (new : List Creation) : Prop where
  internal : ∀ {id}, p.internal = some id → q.internal = some id
  below : ∀ {a b}, p.workspace.store.Below a b → q.workspace.store.Below a b
  new : ∀ c ∈ new, c.program = job.program ∧ ∃ id, q.internal = some id ∧ q.workspace.store.Below id c.id

variable {g : Ground} {job : Job} {start p q r : Progress} {new new' seen : List Creation} {symbol : SymbolId}
  {id : NodeId} {tried pending : List SymbolId}

namespace Echo

theorem silent (internal : q.internal = p.internal)
    (children : ∀ id, q.workspace.store.children id = p.workspace.store.children id) : Echo job p q [] :=
  ⟨fun here => internal.trans here, fun way => Relation.ReflTransGen.mono (fun _ _ mem => (children _).symm ▸ mem) _ _ way,
    List.forall_mem_nil _⟩

theorem trans (h : Echo job p q new) (h' : Echo job q r new') : Echo job p r (new ++ new') where
  internal := fun here => h'.internal (h.internal here)
  below := fun way => h'.below (h.below way)
  new := by
    intro c mem
    rcases List.mem_append.1 mem with mem | mem
    · obtain ⟨program, id, internal, way⟩ := h.new c mem
      exact ⟨program, id, h'.internal internal, h'.below way⟩
    · exact h'.new c mem

end Echo

/-! ## Steps that do the same -/

/-- With an observer a step that ends well does the same, and he takes down what is created. -/
def Echoes {α : Type} (job : Job) (x : Job.Step α) (p : Progress) : Prop :=
  ∀ a q, x p = .ok a q → ∀ seen, ∃ new, x (p.observed seen) = .ok a (q.observed (seen ++ new)) ∧ Echo job p q new

section

variable {α β : Type} {x : Job.Step α} {f : α → Job.Step β}

theorem echoes_pure (a : α) : Echoes job (pure a) p := by
  intro _ _ ok seen
  cases ok
  exact ⟨[], by rw [List.append_nil]; rfl, .silent rfl fun _ => rfl⟩

theorem echoes_throw {e : Error} : Echoes job (throw e : Job.Step α) p := fun _ _ ok => nomatch ok

theorem Echoes.bind (h : Echoes job x p) (rest : ∀ a q, x p = .ok a q → Echoes job (f a) q) :
    Echoes job (x >>= f) p := by
  intro b r ok seen
  obtain ⟨a, q, first, second⟩ := bind_ok ok
  obtain ⟨new, eq, echo⟩ := h a q first seen
  obtain ⟨new', eq', echo'⟩ := rest a q first b r second (seen ++ new)
  exact ⟨new ++ new', by rw [bind_of_ok eq, eq', List.append_assoc], echo.trans echo'⟩

theorem echoes_get {f : Progress → Job.Step β} (same : ∀ seen, f (p.observed seen) = f p) (h : Echoes job (f p) p) :
    Echoes job (get >>= f) p := by
  intro b r ok seen
  obtain ⟨new, eq, echo⟩ := h b r ok seen
  refine ⟨new, ?_, echo⟩
  show f (p.observed seen) (p.observed seen) = _
  rw [same, eq]

theorem echoes_onReport (f : ModuleReport → ModuleReport) : Echoes job (Job.onReport f) p := by
  intro _ _ ok seen
  cases ok
  exact ⟨[], by rw [List.append_nil]; rfl, .silent rfl fun _ => rfl⟩

theorem echoes_onWorkspace {f : Workspace → Workspace}
    (same : ∀ seen, f (p.workspace.observed seen) = (f p.workspace).observed seen)
    (children : ∀ id, (f p.workspace).store.children id = p.workspace.store.children id) :
    Echoes job (Job.onWorkspace f) p := by
  intro _ _ ok seen
  cases ok
  refine ⟨[], ?_, .silent rfl children⟩
  show EStateM.Result.ok _ { p.observed seen with workspace := f (p.workspace.observed seen) } = _
  rw [same, List.append_nil]
  rfl

theorem echoes_log {message : Workspace → String}
    (same : ∀ seen, message (p.workspace.observed seen) = message p.workspace) : Echoes job (Job.log message) p :=
  echoes_onWorkspace (fun seen => by rw [same]; rfl) fun _ => rfl

end

/-! ## The namespace for the module -/

def Job.noteNamespace (job : Job) (r : ModuleReport) (id : NodeId) (w : Workspace) : Progress :=
  ⟨w.report .debug .resolution ("created internal namespace " ++ (w.store.node id).name.display ++ " in " ++
    (w.store.node job.module).name.display), r, some id⟩

/-- How far the module has come once a namespace was created for it. -/
def Job.withNamespace (job : Job) (p : Progress) : Progress :=
  job.noteNamespace p.report p.workspace.store.nodes.size
    (((p.workspace.activate job.program).create job.module .nameSpace job.policy.namespaceName none).2.announce
      p.workspace.project p.workspace.store.nodes.size)

theorem internalNamespace_fresh (none : p.internal = none) (container : p.workspace.store.isContainer job.module = true)
    (can : ((p.workspace.activate job.program).create job.module .nameSpace job.policy.namespaceName
      .none).2.canAnnounce = true) :
    job.internalNamespace p = .ok p.workspace.store.nodes.size (job.withNamespace p) := by
  have allowed : (p.workspace.activate job.program).create? job.module .nameSpace job.policy.namespaceName .none =
    .ok ((p.workspace.activate job.program).create job.module .nameSpace job.policy.namespaceName .none) :=
      if_pos container
  have asked : ∀ q : Progress, (get : Job.Step Progress) q = .ok q q := fun _ => rfl
  have activated : Job.onWorkspace (·.activate job.program) p =
    .ok ⟨⟩ { p with workspace := p.workspace.activate job.program } := rfl
  unfold Job.internalNamespace
  rw [bind_of_ok (asked p)]
  simp only [none]
  rw [bind_of_ok activated, bind_of_ok (asked _)]
  simp only [allowed, announce?, can, if_true]
  rfl

/-- The namespace is announced while the program of the module is active. -/
theorem internalNamespace_echoes (h : Fits g job p) : Echoes job job.internalNamespace p := by
  cases internal : p.internal with
  | some id =>
    unfold Job.internalNamespace
    refine echoes_get (fun _ => rfl) ?_
    rw [internal]
    exact echoes_pure id
  | none =>
    intro id q ok seen
    let made := ((p.workspace.activate job.program).create job.module .nameSpace job.policy.namespaceName none).2
    have container := h.containers _ h.module
    have kept := kept_create (p.workspace.activate job.program) job.module .nameSpace job.policy.namespaceName none
    have plugin : made.HasPluginOnly := kept.listeners.trans h.sound.plugin
    have opened := (internalNamespace_meets h fun _ _ => True).of_ok ok
    rw [internalNamespace_fresh internal container (canAnnounce_of_plugin plugin)] at ok
    cases ok
    let creation : Creation := ⟨p.workspace.project, p.workspace.store.nodes.size,
      (made.store.node p.workspace.store.nodes.size).name, made.active⟩
    have same : job.withNamespace (p.observed seen) = (job.withNamespace p).observed (seen ++ [creation]) :=
      congrArg (job.noteNamespace p.report p.workspace.store.nodes.size) (announce_observed plugin _ _ seen)
    refine ⟨[creation], ?_, fun {id} here => ?_, ?_, List.forall_mem_singleton.2 ⟨kept.active, _, rfl, .refl⟩⟩
    · rw [← same]
      exact internalNamespace_fresh (p := p.observed seen) internal container (canAnnounce_observed plugin seen)
    · rw [internal] at here
      cases here
    · obtain ⟨w, store, ext⟩ := opened.extends h
      intro a b way
      rw [← store] at way
      exact ext.below way

/-! ## Symbols -/

/-- Everything that is converted in the namespace is put below it. -/
theorem convert_echoes (hosts : Hosts g p.workspace id [symbol]) (internal : p.internal = some id)
    (active : p.workspace.active = job.program) :
    Echoes job (get >>= fun p => Job.take (p.workspace.convert id symbol)) p := by
  intro a q ok seen
  have ok : Job.take (p.workspace.convert id symbol) p = .ok a q := ok
  cases program : job.program with
  | none =>
    rw [convert_inactive _ _ _ (active.trans program)] at ok
    cases ok
  | some name =>
    obtain ⟨id?, w, new, eq, converts, eq', witnessed⟩ :=
      convert_observed hosts (by rw [active, program]; rfl) seen
    rw [eq] at ok
    cases ok
    refine ⟨new, ?_, fun here => here, fun way => (converts.spec hosts).ext.below way, fun c mem => ?_⟩
    · show Job.take ((p.workspace.observed seen).convert id symbol) (p.observed seen) = _
      rw [eq']
      rfl
    · obtain ⟨program', way⟩ := witnessed c mem
      exact ⟨program'.trans active, id, internal, way⟩

theorem synthesize_echoes (h : Fits g job p) (named : symbol < g.top) : Echoes job (job.synthesize symbol) p := by
  unfold Job.synthesize
  refine (internalNamespace_echoes h).bind fun id q opened => ?_
  have prepared := ((internalNamespace_meets h fun _ _ => True).of_ok opened).prepared h
  rw [← bind_assoc]
  refine (convert_echoes (prepared.hosts named) prepared.internal (prepared.fits.internal prepared.internal).2.2).bind
    fun id? q _ => ?_
  cases id? with
  | none => exact echoes_pure _
  | some id => exact (echoes_log fun _ => rfl).bind fun _ _ _ => echoes_onReport _

theorem link_echoes (symbol : SymbolId) (id : NodeId) : Echoes job (job.link symbol id) p := by
  unfold Job.link
  refine echoes_get (fun _ => rfl) ?_
  dsimp only
  cases job.owner? p.workspace.store id with
  | error e => exact echoes_throw
  | ok owner? =>
    cases owner? with
    | none => exact (echoes_log fun _ => rfl).bind fun _ _ _ => echoes_onReport _
    | some owner =>
      refine (echoes_onWorkspace (fun _ => rfl) fun _ => rfl).bind fun _ _ _ => ?_
      exact (echoes_log fun _ => rfl).bind fun _ _ _ => echoes_onReport _

/-- Whatever becomes of a symbol, the same becomes of it with an observer. -/
theorem resolveSymbol_echoes (h : Fits g job p) (named : symbol < g.top) : Echoes job (job.resolveSymbol symbol) p := by
  unfold Job.resolveSymbol
  refine echoes_get (fun _ => rfl) ?_
  dsimp only
  split
  · exact echoes_onReport _
  · split
    · exact echoes_throw
    · exact link_echoes symbol _
    · split
      · exact echoes_onReport _
      · exact synthesize_echoes h named

/-! ## Runs -/

theorem resolveAll_echoes (h : Fits g job start) (fresh : start.internal = none)
    (course : Course job start tried pending p) : Echoes job (job.resolveAll pending) p := by
  induction pending generalizing tried p with
  | nil => exact echoes_pure _
  | cons symbol rest ih =>
    unfold Job.resolveAll
    obtain ⟨_, named, unbound⟩ := course.turn h fresh
    have fits := (course.underway h fresh).1.fits
    refine (resolveSymbol_echoes fits named).bind fun _ q ok => ih (course.step ?_)
    exact (resolveSymbol_meets fits named unbound).of_ok ok

/-- All rounds do the same with an observer. -/
theorem rounds_echoes (h : Fits g job start) (fresh : start.internal = none) {n : Nat}
    (course : pending ≠ [] → Course job start tried pending (Job.nextRound p)) :
    Echoes job (job.rounds n tried pending) p := by
  induction n generalizing tried pending p with
  | zero => exact echoes_pure _
  | succ n ih =>
    by_cases more : pending = []
    · subst more
      exact echoes_pure _
    · intro a r ok seen
      have course := course more
      have round : ∀ p, job.round pending p = job.resolveAll pending (Job.nextRound p) := fun _ => rfl
      rw [Job.rounds_succ more, round] at ok
      generalize first : job.resolveAll pending (Job.nextRound p) = answer at ok
      obtain ⟨_, q⟩ | _ := answer
      · have resolved := (resolveAll_meets h fresh course).of_ok first
        dsimp only at ok
        generalize next : job.untried (tried ++ pending) q = answer at ok
        obtain _ | next' := answer
        · cases ok
        · obtain ⟨new, eq, echo⟩ := resolveAll_echoes h fresh course _ _ first seen
          obtain ⟨new', eq', echo'⟩ := ih (fun some => resolved.again next some) a r ok (seen ++ new)
          refine ⟨new ++ new', ?_, Echo.trans (p := p) ⟨echo.internal, echo.below, echo.new⟩ echo'⟩
          have round' : job.round pending (p.observed seen) = .ok _ _ := eq
          have next' : job.untried (tried ++ pending) (q.observed (seen ++ new)) = _ := next
          rw [Job.rounds_succ more, round']
          dsimp only
          rw [next']
          dsimp only
          rw [eq', List.append_assoc]
      · cases ok

/-- The namespace meets the same end with an observer. -/
theorem settle_observed (ok : Job.settle p = .ok ⟨⟩ q) (seen : List Creation) :
    Job.settle (p.observed seen) = .ok ⟨⟩ (q.observed seen) := by
  have asked : ∀ q : Progress, (get : Job.Step Progress) q = .ok q q := fun _ => rfl
  have same : (p.observed seen).internal = p.internal := rfl
  unfold Job.settle at ok ⊢
  rw [bind_of_ok (asked _)] at ok ⊢
  rw [same]
  cases internal : p.internal with
  | none =>
    simp only [internal] at ok ⊢
    cases ok
    rfl
  | some id =>
    simp only [internal] at ok ⊢
    rw [bind_of_ok (asked _)] at ok ⊢
    have same : (p.observed seen).workspace.store = p.workspace.store := rfl
    rw [same]
    split at ok
    all_goals
      rename_i empty
      simp only [empty, if_true]
      cases ok
      rfl

/-- A run with an observer: he takes down what is created until the rounds end, all in the namespace for the
module, which hangs below it. -/
theorem run_observed (h : Fits g job start) (fresh : start.internal = none)
    (some : start.workspace.store.missing job.module ≠ [])
    (ok : job.run (start.workspace.store.missing job.module) start = .ok ⟨⟩ q) (seen : List Creation) : ∃ p new,
      job.run (start.workspace.store.missing job.module) (start.observed seen) = .ok ⟨⟩ (q.observed (seen ++ new)) ∧
      job.perform (job.plan start) start = .ok ⟨⟩ p ∧ Echo job start p new ∧
      ∀ {id}, p.internal = .some id → id ∈ p.workspace.store.children job.module := by
  have asked : ∀ q : Progress, (get : Job.Step Progress) q = .ok q q := fun _ => rfl
  unfold Job.run at ok ⊢
  rw [bind_of_ok (asked _)] at ok ⊢
  obtain ⟨_, p, rounds, settles⟩ := bind_ok ok
  have met := rounds_meets h fresh (n := start.workspace.store.symbols.size + 1) (Or.inr ⟨some, .start⟩)
    (Nat.lt_succ_of_le h.sound.catalog.top_le)
  obtain ⟨course, _⟩ := met.of_ok rounds
  obtain ⟨new, eq, echo⟩ := rounds_echoes h fresh (fun _ => .start) _ _ rounds seen
  refine ⟨p, new, ?_, Job.perform_batches rounds, echo, (course.underway h fresh).1.child⟩
  have same : (start.observed seen).workspace.store = start.workspace.store := rfl
  rw [same, bind_of_ok eq, settle_observed settles]

/-! ## Turns -/

/-- What an observer takes down in the turn of a module: creations of the namespace for the module, which hangs below
it, and of declarations below that, all while the program of the module is active. -/
def Attends (job : Job) (w : Workspace) (new : List Creation) : Prop :=
  ∃ p, job.perform (job.plan (job.opening w)) (job.opening w) = .ok ⟨⟩ p ∧
    ∀ c ∈ new, c.program = job.program ∧ ∃ id, p.internal = some id ∧ id ∈ p.workspace.store.children job.module ∧
      p.workspace.store.Below id c.id

variable {known : OrdMap NodeId Value} {policy : Policy} {modules rest : List NodeId} {w w' : Workspace} {rs : Report}

theorem attends_clean (none : w.store.missing job.module = []) : Attends job w [] := by
  refine ⟨job.opening w, ?_, List.forall_mem_nil _⟩
  have same : (job.opening w).workspace.store = w.store := rfl
  unfold Job.plan
  rw [same, none]
  rfl

/-- The turn of a module is the same with an observer. -/
theorem resolveModule_observed {r : ModuleReport} (h : Fits g job (job.begin w))
    (some : w.store.missing job.module ≠ []) (ok : w.resolveModule job (w.store.missing job.module) = (.ok r, w'))
    (seen : List Creation) : ∃ new, Attends job w new ∧
      (w.observed seen).resolveModule job (w.store.missing job.module) = (.ok r, w'.observed (seen ++ new)) := by
  rw [resolveModule_eq] at ok
  generalize ran : job.run (w.store.missing job.module) (job.opening w) = answer at ok
  obtain ⟨_, q⟩ | _ := answer
  · cases ok
    have fits : Fits g job (job.opening w) := h.quiet (quiet_report ..)
    obtain ⟨p, new, eq, performed, echo, child⟩ := run_observed fits rfl some ran seen
    refine ⟨new, ⟨p, performed, fun c mem => ?_⟩, (resolveModule_eq (w.observed seen) job).trans ?_⟩
    · obtain ⟨program, id, internal, way⟩ := echo.new c mem
      exact ⟨program, id, internal, child internal, way⟩
    · have eq : job.run ((w.observed seen).store.missing job.module) (job.opening (w.observed seen)) = .ok _ _ := eq
      rw [eq]
      rfl
  · cases ok

/-! ## Passes -/

/-- What an observer takes down in the turn of a module in a pass over `w`. -/
def Overhears (w : Workspace) (policy : Policy) (m : NodeId) (new : List Creation) : Prop :=
  ∃ u, ComesTo w policy m u ∧ Attends ⟨m, w.modules, w.known.find? m, policy⟩ u new

/-- A pass is the same with an observer, turn by turn. -/
theorem resolveModules_observed {u : Workspace} {before : List NodeId} {rs₀ : Report} (ask : w.policy = .ok policy)
    (eq : w.modules = before ++ rest) (ahead : Ahead g w.modules u)
    (went : resolveModules w.known policy w.modules before w.opening = (.ok rs₀, u))
    (ok : resolveModules w.known policy w.modules rest u = (.ok rs, w')) (seen : List Creation) : ∃ turns,
      resolveModules w.known policy w.modules rest (u.observed seen) = (.ok rs, w'.observed (seen ++ turns.flatten)) ∧
      List.Forall₂ (Overhears w policy) rest turns := by
  induction rest generalizing u before rs₀ rs seen with
  | nil =>
    cases ok
    exact ⟨[], by rw [List.flatten_nil, List.append_nil]; rfl, .nil⟩
  | cons m rest ih =>
    have comes : ComesTo w policy m u := ⟨ask, before, rest, rs₀, eq, went⟩
    have eq' : w.modules = (before ++ [m]) ++ rest := by rw [eq, List.append_assoc, List.singleton_append]
    have further : ∀ {rs₁ v}, resolveModules w.known policy w.modules [m] u = (.ok rs₁, v) →
        resolveModules w.known policy w.modules (before ++ [m]) w.opening = (.ok (rs₀ ++ rs₁), v) := by
      intro rs₁ v one
      rw [resolveModules_append, went]
      dsimp only
      rw [one]
    let job : Job := ⟨m, w.modules, w.known.find? m, policy⟩
    have layout : Layout g (u.observed seen).store := ahead.sound.layout
    by_cases none : u.store.missing m = []
    · have clean : (u.observed seen).store.missing job.module = [] := none
      rw [resolveModules_clean ahead.sound.layout none] at ok
      have idle : resolveModules w.known policy w.modules [m] u = (.ok [], u) :=
        resolveModules_clean ahead.sound.layout none
      obtain ⟨turns, others, attended⟩ := ih eq' ahead (further idle) ok seen
      have silent : Attends job u [] := attends_clean none
      refine ⟨[] :: turns, ?_, .cons ⟨u, comes, silent⟩ attended⟩
      rw [resolveModules_clean layout clean, others]
      rfl
    · have some : (u.observed seen).store.missing job.module ≠ [] := none
      have here : m ∈ w.modules := eq ▸ List.mem_append_right _ List.mem_cons_self
      have fits := ahead.fits job rfl here
      rw [resolveModules_cons ahead.sound.layout none] at ok
      rcases resolveModule_cases fits none with ⟨r, v, first, turn⟩ | ⟨v, first, _⟩
      · have one := further (by rw [resolveModules_cons ahead.sound.layout none, first]; rfl)
        rw [first] at ok
        dsimp only at ok
        generalize later : resolveModules w.known policy w.modules rest v = answer at ok
        obtain ⟨_ | rs', v'⟩ := answer <;> cases ok
        obtain ⟨new, attends, first'⟩ := resolveModule_observed fits none first seen
        obtain ⟨turns, others, attended⟩ := ih eq' (ahead.passed (turn.passed fits)) one later (seen ++ new)
        refine ⟨new :: turns, ?_, .cons ⟨u, comes, attends⟩ attended⟩
        have first' : (u.observed seen).resolveModule job ((u.observed seen).store.missing m) = _ := first'
        rw [resolveModules_cons layout some, first']
        dsimp only
        rw [others, List.flatten_cons, List.append_assoc]
      · rw [first] at ok
        cases ok

theorem HasPluginOnly.resolving_observed (h : w.HasPluginOnly) (seen : List Creation) :
    (w.observed seen).reacting? resolutionEvent = some [⟨resolutionEvent, passPriority, .resolve⟩] := by
  unfold reacting? observed
  rw [h]
  rfl

/-- Starting resolution comes to the same with an observer, and he takes down what each module creates. -/
theorem resolve_observed (h : Sound g w) (ask : w.policy = .ok policy) (ok : w.resolve = (.ok (some rs), w'))
    (seen : List Creation) : ∃ turns, (w.observed seen).resolve = (.ok (some rs), w'.observed (seen ++ turns.flatten)) ∧
      List.Forall₂ (Overhears w policy) w.modules turns := by
  rw [resolve_eq h ask] at ok
  generalize went : resolveModules w.known policy w.modules w.modules w.opening = answer at ok
  obtain ⟨_ | rs', u⟩ := answer <;> cases ok
  have start : w.modules = [] ++ w.modules := rfl
  obtain ⟨turns, others, attended⟩ := resolveModules_observed ask start
    (h.ahead_of_quiet (quiet_opening w)) (show resolveModules _ _ _ [] _ = _ from rfl) went seen
  refine ⟨turns, ?_, attended⟩
  have others : resolveModules (w.observed seen).known policy (w.observed seen).modules (w.observed seen).modules
    (w.observed seen).opening = _ := others
  rw [resolve_of_acts (HasPluginOnly.resolving_observed h.plugin seen) h.hasModules ask, others]
  rfl

end DocTree
