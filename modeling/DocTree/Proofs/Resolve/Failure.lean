import DocTree.Proofs.Resolve.Conservative
import DocTree.Proofs.Resolve.Fixpoint

/-!
# How the first pass over a document ends

A pass can create nothing for a module unless it knows the program that the module comes from. What it
does not need a program for, it does: it skips, drops and binds. It breaks off at the first symbol that it
would have to create a declaration for, and by then the namespace for it is there.

* `Unmoved w w'` : the nodes, the symbols and the project are the same, and so are all lookups;
* `Course.unmoved` : where no program is known, a run moves nothing, and no symbol that it got past is stuck;
* `resolveModules_fails_iff` : the modules are resolved unless one of them has a stuck symbol;
* `Abort.hollow` : a pass that breaks off leaves an empty namespace in the module;
* `ending_of_opened` : when the first pass over a document fails, and what it leaves then.
-/

namespace DocTree

open Workspace

variable {g : Ground} {policy : Policy} {known : OrdMap NodeId Value} {modules rest tried pending : List NodeId}
  {w w₁ w₂ w' : Workspace} {job : Job} {start p q : Progress} {symbol : SymbolId} {m : NodeId} {r : ModuleReport}
  {rs : Report}

/-! ## Runs without a program -/

/-- The nodes, the symbols and the project are the same. -/
structure Unmoved (w w' : Workspace) : Prop where
  nodes : w'.store.nodes = w.store.nodes
  symbols : w'.store.symbols = w.store.symbols
  project : w'.project = w.project

theorem Unmoved.trans (h : Unmoved w w₁) (h' : Unmoved w₁ w₂) : Unmoved w w₂ :=
  ⟨h'.nodes.trans h.nodes, h'.symbols.trans h.symbols, h'.project.trans h.project⟩

theorem Unmoved.of_quiet (h : Quiet w w') : Unmoved w w' :=
  ⟨congrArg Store.nodes h.store, congrArg Store.symbols h.store, h.project⟩

theorem Store.childAt_congr {s t : Store} (node : ∀ id, t.node id = s.node id) (path : NamePath) (id : NodeId) :
    t.childAt path id = s.childAt path id := by
  have named : ∀ id name, t.childNamed id name = s.childNamed id name := fun id name => by
    unfold childNamed children
    simp only [node]
  induction path generalizing id with
  | nil => rfl
  | cons name rest ih =>
    cases rest with
    | nil => exact named id name
    | cons next rest =>
      unfold childAt
      rw [named]
      exact congrArg _ (funext fun id => ih id)

theorem Unmoved.namesake? (h : Unmoved w w') (symbol : SymbolId) : w'.namesake? symbol = w.namesake? symbol := by
  have node : ∀ id, w'.store.node id = w.store.node id := fun id => by rw [Store.node, Store.node, h.nodes]
  have path := Store.childAt_congr node
  unfold Workspace.namesake? Store.symbol Store.findInProject Store.childrenOfKind Store.children
  simp only [h.symbols, h.project, path, node, funext (path _)]

theorem Unmoved.stuck_iff (h : Unmoved w w') : Stuck job w' symbol ↔ Stuck job w symbol := by
  have same : w'.store.symbol symbol = w.store.symbol symbol := by rw [Store.symbol, Store.symbol, h.symbols]
  exact ⟨fun stuck => ⟨same ▸ stuck.proper, h.namesake? symbol ▸ stuck.unknown, stuck.creates, stuck.program⟩,
    fun stuck => ⟨same.symm ▸ stuck.proper, (h.namesake? symbol).trans stuck.unknown, stuck.creates, stuck.program⟩⟩

/-- Where no program is known, a symbol that has had its turn was not stuck, and nothing has moved. -/
theorem Resolves.unmoved (resolves : Resolves job p symbol q) (unknown : job.program = none) :
    Unmoved p.workspace q.workspace ∧ q.internal = p.internal ∧ ¬Stuck job p.workspace symbol := by
  cases resolves with
  | skipped isDefault =>
    refine ⟨⟨rfl, rfl, rfl⟩, rfl, fun stuck => ?_⟩
    rw [stuck.proper] at isDefault
    cases isDefault
  | dropped _ found _ quiet =>
    refine ⟨.of_quiet quiet, rfl, fun stuck => ?_⟩
    rw [stuck.unknown] at found
    cases found
  | aliased _ found _ quiet =>
    refine ⟨Unmoved.trans ⟨nodes_register .., (kept_register ..).symbols, rfl⟩ (.of_quiet quiet), rfl, fun stuck => ?_⟩
    rw [stuck.unknown] at found
    cases found
  | unresolved _ _ linkOnly =>
    refine ⟨⟨rfl, rfl, rfl⟩, rfl, fun stuck => ?_⟩
    rw [stuck.creates] at linkOnly
    cases linkOnly
  | undescribed _ _ _ some | synthesized _ _ _ some =>
    rw [unknown] at some
    cases some

/-- Where no program is known, a run moves nothing. It tries nothing but what was missing at first, and
no symbol that it got past is stuck. -/
theorem Course.unmoved (fresh : start.internal = none) (unknown : job.program = none)
    (course : Course job start tried pending p) :
    Unmoved start.workspace p.workspace ∧ p.internal = none ∧ (∀ symbol ∈ tried, ¬Stuck job start.workspace symbol) ∧
      ∀ symbol ∈ tried ++ pending, symbol ∈ start.workspace.store.missing job.module := by
  induction course with
  | start => exact ⟨⟨rfl, rfl, rfl⟩, fresh, List.forall_mem_nil _, fun symbol mem => mem⟩
  | again _ eq more ih =>
    unfold Job.untried at eq
    rw [ih.2.1] at eq
    cases eq
    exact absurd rfl more
  | @step tried rest symbol p q _ resolves ih =>
    obtain ⟨unmoved, bare, past, among⟩ := ih
    obtain ⟨further, same, free⟩ := resolves.unmoved unknown
    refine ⟨unmoved.trans further, same.trans bare, fun symbol' mem => ?_, fun symbol' mem => ?_⟩
    · rcases List.mem_append.1 mem with mem | mem
      · exact past symbol' mem
      · exact List.mem_singleton.1 mem ▸ mt unmoved.stuck_iff.2 free
    · rw [List.append_assoc] at mem
      exact among symbol' mem

/-! ## Modules that get stuck -/

theorem Turn.not_stuck (turn : Turn job w r w') : ∀ symbol ∈ w.store.missing job.module, ¬Stuck job w symbol := by
  obtain @⟨u, p, q, quiet, course, _, _⟩ := turn
  intro symbol missing stuck
  have unmoved := course.unmoved rfl stuck.program
  have covered := course.covers symbol (by
    rw [show (job.begin u).workspace.store = w.store from quiet.store]
    exact missing)
  rw [List.append_nil] at covered
  exact unmoved.2.2.1 symbol covered ((Unmoved.of_quiet quiet).stuck_iff.2 stuck)

theorem Stalled.stuck (stalled : Stalled job w w') : ∃ symbol ∈ w.store.missing job.module, Stuck job w symbol := by
  obtain @⟨u, e, q, quiet, tried, symbol, rest, p, course, breaks⟩ := stalled
  have unmoved := course.unmoved rfl breaks.stuck.program
  refine ⟨symbol, ?_, ?_⟩
  · have among := unmoved.2.2.2 symbol (List.mem_append_right _ List.mem_cons_self)
    rwa [show (job.begin u).workspace.store = w.store from quiet.store] at among
  · exact (Unmoved.of_quiet quiet).stuck_iff.1 (unmoved.1.stuck_iff.1 breaks.stuck)

/-- The turn of one of some modules comes that misses a symbol it is stuck with. -/
def GetsStuck (known : OrdMap NodeId Value) (policy : Policy) (modules rest : List NodeId) (w : Workspace) : Prop :=
  ∃ before m after rs u, rest = before ++ m :: after ∧
    resolveModules known policy modules before w = (.ok rs, u) ∧
    ∃ symbol ∈ u.store.missing m, Stuck ⟨m, modules, known.find? m, policy⟩ u symbol

/-- If the first module is not stuck, one of the others is, after its turn. -/
theorem getsStuck_cons_iff (free : ∀ symbol ∈ w.store.missing m, ¬Stuck ⟨m, modules, known.find? m, policy⟩ w symbol)
    (next : ∀ ms u, (∃ rs, resolveModules known policy modules (m :: ms) w = (.ok rs, u)) ↔
      ∃ rs, resolveModules known policy modules ms w₁ = (.ok rs, u)) :
    GetsStuck known policy modules (m :: rest) w ↔ GetsStuck known policy modules rest w₁ := by
  constructor
  · rintro ⟨before, m', after, rs, u, eq, ok, symbol, missing, stuck⟩
    cases before with
    | nil =>
      cases eq
      cases ok
      exact absurd stuck (free symbol missing)
    | cons _ before =>
      cases eq
      obtain ⟨rs', ok'⟩ := (next before u).1 ⟨rs, ok⟩
      exact ⟨before, m', after, rs', u, rfl, ok', symbol, missing, stuck⟩
  · rintro ⟨before, m', after, rs, u, rfl, ok, stuck⟩
    obtain ⟨rs', ok'⟩ := (next before u).2 ⟨rs, ok⟩
    exact ⟨m :: before, m', after, rs', u, rfl, ok', stuck⟩

/-- After the turn of the first module, all depends on the others. -/
theorem resolveModules_turn (h : Sound g w) (some : w.store.missing m ≠ [])
    (eq : w.resolveModule ⟨m, modules, known.find? m, policy⟩ (w.store.missing m) = (.ok r, w₁)) (ms : List NodeId) :
    ((resolveModules known policy modules (m :: ms) w).1 = .error .noActiveProgram ↔
      (resolveModules known policy modules ms w₁).1 = .error .noActiveProgram) ∧
    ∀ u, (∃ rs, resolveModules known policy modules (m :: ms) w = (.ok rs, u)) ↔
      ∃ rs, resolveModules known policy modules ms w₁ = (.ok rs, u) := by
  simp only [resolveModules_cons h.layout some, eq]
  obtain ⟨answer, u'⟩ := resolveModules known policy modules ms w₁
  cases answer with
  | error e =>
    refine ⟨Iff.rfl, fun u => iff_of_false ?_ ?_⟩
    · rintro ⟨_, eq⟩
      cases eq
    · rintro ⟨_, eq⟩
      cases eq
  | ok rs =>
    refine ⟨iff_of_false (fun eq => by cases eq) (fun eq => by cases eq), fun u => ⟨?_, ?_⟩⟩
    · rintro ⟨_, eq⟩
      cases eq
      exact ⟨_, rfl⟩
    · rintro ⟨_, eq⟩
      cases eq
      exact ⟨_, rfl⟩

/-- Resolving modules fails if and only if one of them gets stuck. -/
theorem resolveModules_fails_iff (h : Ahead g modules w) (sub : ∀ m ∈ rest, m ∈ modules) :
    (resolveModules known policy modules rest w).1 = .error .noActiveProgram ↔
      GetsStuck known policy modules rest w := by
  induction rest generalizing w with
  | nil => exact ⟨nofun, fun ⟨before, m, after, _, _, eq, _⟩ => by cases before <;> cases eq⟩
  | cons m rest ih =>
    have sub' : ∀ m ∈ rest, m ∈ modules := fun m mem => sub m (List.mem_cons_of_mem _ mem)
    by_cases none : w.store.missing m = []
    · rw [resolveModules_clean h.sound.layout none, ih h sub']
      refine (getsStuck_cons_iff (fun symbol missing => ?_) fun ms u => ?_).symm
      · rw [none] at missing
        cases missing
      · rw [resolveModules_clean h.sound.layout none]
    · have fits := h.fits ⟨m, modules, known.find? m, policy⟩ rfl (sub m List.mem_cons_self)
      rcases resolveModule_cases fits none with ⟨r, w₁, eq, turn⟩ | ⟨w₁, eq, stalled⟩
      · have after := resolveModules_turn h.sound none eq
        rw [(after rest).1, ih (h.passed (turn.passed fits)) sub']
        exact (getsStuck_cons_iff turn.not_stuck fun ms => (after ms).2).symm
      · refine iff_of_true ?_ ⟨[], m, rest, [], w, rfl, rfl, stalled.stuck⟩
        rw [resolveModules_cons h.sound.layout none, eq]

/-- A pass fails if and only if it comes to a module that misses a symbol it is stuck with. -/
theorem resolve_fails_iff (h : Sound g w) (ask : w.policy = .ok policy) :
    w.resolve.1 = .error .noActiveProgram ↔ ∃ m u, ComesTo w policy m u ∧
      ∃ symbol ∈ u.store.missing m, Stuck ⟨m, w.modules, w.known.find? m, policy⟩ u symbol := by
  have same : w.resolve.1 = .error .noActiveProgram ↔
      (resolveModules w.known policy w.modules w.modules w.opening).1 = .error .noActiveProgram := by
    rw [resolve_eq h ask]
    obtain ⟨answer, u⟩ := resolveModules w.known policy w.modules w.modules w.opening
    cases answer with
    | error e => exact ⟨fun eq => by cases eq; rfl, fun eq => by cases eq; rfl⟩
    | ok rs => exact ⟨nofun, nofun⟩
  rw [same, resolveModules_fails_iff (h.ahead_of_quiet (quiet_opening w)) fun m mem => mem]
  constructor
  · rintro ⟨before, m, after, rs, u, eq, ok, stuck⟩
    exact ⟨m, u, ⟨ask, before, after, rs, eq, ok⟩, stuck⟩
  · rintro ⟨m, u, ⟨_, before, after, rs, eq, ok⟩, stuck⟩
    exact ⟨before, m, after, rs, u, eq, ok, stuck⟩

/-! ## What is left behind -/

/-- A pass has put a namespace into the module and left it empty. -/
def Hollow (policy : Policy) (w w' : Workspace) (m : NodeId) : Prop :=
  ∃ id, w.store.nodes.size ≤ id ∧ id ∈ w'.store.children m ∧
    w'.store.node id = ⟨policy.namespaceName, .nameSpace, some m, .declaration {}⟩

/-- The turn of a module that breaks off leaves the namespace that was just created. -/
theorem Stalled.hollow (stalled : Stalled job w w') (h : Fits g job (job.begin w)) :
    Hollow job.policy w w' job.module := by
  obtain @⟨u, e, q, quiet, tried, symbol, rest, p, course, breaks⟩ := stalled
  have fits := h.quiet quiet
  have under := (course.underway fits rfl).1
  have bare := (course.unmoved rfl breaks.stuck.program).2.1
  obtain ⟨id, opens⟩ := breaks.opens
  have later := under.opens breaks.stuck.creates opens
  have prepared := opens.prepared under.fits
  refine ⟨id, ?_, later.child_internal prepared.internal, ?_⟩
  · exact quiet.store ▸ (later.internal prepared.internal).1
  · cases opens with
    | «open» internal =>
      rw [bare] at internal
      cases internal
    | created _ quiet' =>
      refine (congrArg (fun s : Store => s.node p.workspace.store.nodes.size) quiet'.store).trans ?_
      exact (node_create (w := p.workspace.activate job.program) .nameSpace job.policy.namespaceName none
        under.fits.inside _).trans (if_pos rfl)

theorem Stopped.inactive (stopped : Stopped known policy modules rest w w') : w'.active = none := by
  obtain ⟨_, _, stalled⟩ := stopped
  obtain ⟨_, _⟩ := stalled
  rfl

/-- A pass that breaks off leaves an empty namespace in a module. -/
theorem Abort.hollow (abort : Abort policy w w') (h : Sound g w) : ∃ m ∈ w.modules, Hollow policy w w' m := by
  obtain @⟨v, u, _, quiet, stopped, cleared⟩ := abort
  have ahead := h.ahead_of_quiet quiet
  generalize rest_eq : w.modules = rest at stopped
  obtain @⟨before, after, m, rs, _, u', _, passes, _, stalled⟩ := stopped
  have sub : ∀ m ∈ before, m ∈ w.modules := fun m mem => rest_eq ▸ List.mem_append_left _ mem
  have here : m ∈ w.modules := rest_eq ▸ List.mem_append_right _ List.mem_cons_self
  have passed := passes.passed (rest_eq ▸ ahead) (rest_eq ▸ sub)
  obtain ⟨id, above, child, node⟩ := stalled.hollow
    ((ahead.passed passed).fits ⟨m, _, _, policy⟩ rest_eq.symm here)
  refine ⟨m, rest_eq ▸ here, id, ?_, cleared.store ▸ child, cleared.store ▸ node⟩
  exact Nat.le_trans (quiet.store ▸ (passed.outgrows policy.namespaceName fun _ => rfl).size) above

theorem Gains.not_hollow (gains : Gains policy w w' rs m)
    (old : ∀ id ∈ w.store.children m, id < w.store.nodes.size) (container : w.store.isContainer m = true) :
    ¬Hollow policy w w' m := by
  rintro ⟨id, above, child, node⟩
  cases gains with
  | nothing _ same =>
    rw [Store.children, same] at child
    exact absurd (old id child) (Nat.not_lt_of_le above)
  | @nameSpace r id' _ _ some _ _ _ widened node' =>
    rw [Store.children, widened, Node.giveChildren_body, Body.children_mapChildren container] at child
    rcases List.mem_append.1 child with child | child
    · exact absurd (old id child) (Nat.not_lt_of_le above)
    · rw [List.mem_singleton.1 child, node'] at node
      have none : r.synthesized = [] := congrArg (fun n : Node => n.body.children) node
      exact some none

/-! ## The first pass -/

/-- A module that held nothing when the document was loaded misses a symbol that a declaration would have
to be created for. -/
structure Starves (policy : Policy) (w u : Workspace) (m : NodeId) : Prop where
  empty : w.store.children m = []
  creates : policy.linkOnly = false
  missing : ∃ symbol ∈ u.store.missing m, (u.store.symbol symbol).isDefaultExport = false ∧ u.namesake? symbol = none

/-- How a pass ends. -/
structure Ending (policy : Policy) (w : Workspace) : Prop where
  /-- There is a report, or there was no active program for a conversion. -/
  answer : (∃ rs, w.resolve.1 = .ok (some rs)) ∨ w.resolve.1 = .error .noActiveProgram
  /-- In any case no program is active afterwards, and nothing is known of programs. -/
  inactive : w.resolve.2.active = none
  forgotten : w.resolve.2.known = .empty
  /-- It fails where a module was empty after loading and needs something created. -/
  fails_iff : w.resolve.1 = .error .noActiveProgram ↔ ∃ m u, ComesTo w policy m u ∧ Starves policy w u m
  /-- It leaves a namespace empty where it fails, and only there. -/
  hollow_iff : (∃ m ∈ w.modules, Hollow policy w w.resolve.2 m) ↔ w.resolve.1 = .error .noActiveProgram

/-- After loading, a module of the project is known to come from a program if and only if it holds
anything. -/
theorem Workspace.Tracked.known_iff (h : Tracked g w) (sound : Sound g w) (mem : m ∈ w.modules) :
    w.known.find? m = none ↔ w.store.children m = [] := by
  have tracked : g.Proper m ∧ (w.store.node m).isKind trackedKinds = true := by
    refine ⟨sound.ahead.proper mem, ?_⟩
    unfold Workspace.modules at mem
    rw [sound.project] at mem
    split at mem
    · exact List.mem_singleton.1 mem ▸ h.project
    · have isModule : (w.store.node m).isKind .module = true := (List.mem_filter.1 mem).2
      unfold Node.isKind Kind.meets at isModule ⊢
      simp only [ne_eq, decide_eq_true_eq] at isModule ⊢
      intro none
      refine isModule ?_
      rw [show Kind.module.bits = trackedKinds.bits &&& Kind.module.bits from rfl, ← Nat.and_assoc, none, Nat.zero_and]
  constructor
  · intro none
    by_contra some
    have known := h.marked tracked.1 tracked.2 some
    rw [none] at known
    cases known
  · intro empty
    cases known : w.known.find? m with
    | none => rfl
    | some program => exact absurd empty (h.holds (by rw [known]; rfl))

/-- How the first pass over a document ends: with no program active and nothing known of programs. It
fails if and only if the turn of a module comes that was empty after loading and needs something created;
then, and only then, it leaves an empty namespace behind. -/
theorem ending_of_opened {document : Value} (opened : w.Opened document) (ask : w.policy = .ok policy) :
    Ending policy w := by
  obtain ⟨g, ready⟩ := opened.ready
  have sound := ready.sound
  have fails : w.resolve.1 = .error .noActiveProgram ↔ ∃ m u, ComesTo w policy m u ∧ Starves policy w u m := by
    rw [resolve_fails_iff sound ask]
    refine exists_congr fun m => exists_congr fun u => and_congr_right fun ⟨_, before, after, _, split, _⟩ => ?_
    have mem : m ∈ w.modules := split ▸ List.mem_append_right _ List.mem_cons_self
    have known := ready.tracked.known_iff sound mem
    exact ⟨fun ⟨symbol, missing, stuck⟩ =>
        ⟨known.1 stuck.program, stuck.creates, symbol, missing, stuck.proper, stuck.unknown⟩,
      fun ⟨empty, creates, symbol, missing, proper, unknown⟩ =>
        ⟨symbol, missing, proper, unknown, creates, known.2 empty⟩⟩
  rcases resolve_outcome sound ask with ⟨rs, w', eq, resolution⟩ | ⟨w', eq, abort⟩
  · obtain ⟨v, u, quiet, ahead, passes, cleared⟩ := resolution.turns sound
    refine ⟨Or.inl ⟨rs, by rw [eq]⟩, ?_, ?_, fails, ?_⟩
    · rw [eq]
      exact (resolution.passed sound).inactive ready.inactive
    · rw [eq]
      exact cleared.known
    · rw [eq]
      refine ⟨fun ⟨m, mem, hollow⟩ => absurd hollow ?_, nofun⟩
      exact (resolution.gains sound mem).not_hollow
        (fun id child => (sound.layout.child (sound.ahead.proper mem) child).2.1) (sound.ahead.isContainer mem)
  · refine ⟨Or.inr (by rw [eq]), ?_, ?_, fails, ?_⟩
    · rw [eq]
      obtain ⟨_, stopped, cleared⟩ := abort
      exact cleared.active.trans stopped.inactive
    · rw [eq]
      obtain ⟨_, _, cleared⟩ := abort
      exact cleared.known
    · rw [eq]
      exact ⟨fun _ => rfl, fun _ => abort.hollow sound⟩

/-- A document without modules that exports a module: a type stands in it, and nothing else. -/
def orphan : Value := .object [
  ("programs", .object [("main", .object [("symbols", .object [
    ("M", .object [("kind", .str "module"), ("type", .str "Foo")]),
    ("Foo", .object [("kind", .str "interface")])])])]),
  ("program", .str "main"), ("exports", .list [.str "M"])]

/-- The workspace that this document leads to. -/
def besideOrphan : Workspace := (withPlugin.load (.str "demo") orphan).2

theorem opened_orphan : besideOrphan.Opened orphan := opened_of_isOk (by decide +kernel)

theorem policy_orphan : besideOrphan.policy = .ok ⟨.str "internal", false⟩ := by
  obtain ⟨g, ready⟩ := opened_orphan.ready
  exact policy_of_unset ready.configured (by decide +kernel)

theorem ending_of_opened_orphan : besideOrphan.Opened orphan ∧ besideOrphan.policy = .ok ⟨.str "internal", false⟩ ∧
    Ending ⟨.str "internal", false⟩ besideOrphan :=
  ⟨opened_orphan, policy_orphan, ending_of_opened opened_orphan policy_orphan⟩

/-- Not every first pass ends well: the one over this document fails, and leaves a namespace empty. -/
theorem not_endsWell_orphan : ¬∀ (document : Value) (w : Workspace) (policy : Policy), w.Opened document →
    w.policy = .ok policy → (∃ rs, w.resolve.1 = .ok (some rs)) ∧ w.resolve.2.active = none ∧
      w.resolve.2.known = .empty ∧ ∀ m ∈ w.modules, ¬Hollow policy w w.resolve.2 m := by
  intro all
  obtain ⟨⟨rs, ok⟩, _⟩ := all _ _ _ opened_orphan policy_orphan
  have fails : besideOrphan.resolve.1.isOk = false := by decide +kernel
  rw [ok] at fails
  cases fails

end DocTree
