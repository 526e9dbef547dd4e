import DocTree.Proofs.Workspace.Orderly
import DocTree.Proofs.Resolve.Pass

/-!
# Workspaces that passes lead to

* `Course.edits`, `Turn.edits`, `Stalled.edits`, `Resolution.edits`, `Abort.edits` : whatever resolution
  does is made of edits, also where it breaks off;
* `Workspace.Reached document w` : `w` is what loading a document and any number of passes lead to, each
  with options of its own, some of which may have failed;
* `Reached.stands` : what is known of such a workspace.
-/

namespace DocTree

open Workspace

variable {g : Ground} {extras : Set (Kind × Value)} {policy : Policy} {known : OrdMap NodeId Value}
  {modules rest tried pending : List NodeId} {w w' : Workspace} {job : Job} {start p q : Progress} {symbol : SymbolId}
  {id m : NodeId} {e : Error}
  {r : ModuleReport} {rs : Report}

/-! ## A module under resolution -/

/-- A module that hangs below the project, or the project itself. -/
structure Placed (g : Ground) (w : Workspace) (m : NodeId) : Prop where
  placed : m = g.project ∨ m ∈ w.store.children g.project
  tracked : (w.store.node m).isKind trackedKinds = true

theorem Placed.quiet (h : Placed g w m) (quiet : Quiet w w') : Placed g w' m :=
  ⟨h.placed.imp_right fun below => quiet.store.symm ▸ below, quiet.store.symm ▸ h.tracked⟩

theorem Ahead.placement (h : Ahead g modules w) (mem : m ∈ modules)
    (tracked : (w.store.node m).isKind trackedKinds = true) : Placed g w m := by
  refine ⟨?_, tracked⟩
  rcases h.placed with rfl | below
  · exact Or.inl (List.mem_singleton.1 mem)
  · exact Or.inr (below m mem)

theorem Underway.placed {u : Workspace} (h : Underway g job u tried p) (placed : Placed g u job.module) :
    Placed g p.workspace job.module := by
  refine ⟨?_, ?_⟩
  · rcases placed.placed with here | below
    · exact Or.inl here
    · obtain ⟨extra, eq, _⟩ := (h.outgrows job.policy.namespaceName fun _ => rfl).children
        (Store.lt_of_mem_successors (Node.mem_successors.2 (Or.inl (Node.mem_parts_of_mem_children below))))
      exact Or.inr (eq ▸ List.mem_append_left _ below)
  · rw [h.module]
    exact placed.tracked

theorem Fits.site (h : Fits g job p) (placed : Placed g p.workspace job.module) : Site g p.workspace job.module := by
  refine ⟨?_, h.proper, h.containers _ h.module⟩
  rcases placed.placed with here | below
  · exact here ▸ .refl _
  · exact .single (Node.mem_successors.2 (Or.inl (Node.mem_parts_of_mem_children below)))

theorem Underway.child_internal {u : Workspace} (h : Underway g job u tried p) (internal : p.internal = some id) :
    id ∈ p.workspace.store.children job.module := by
  have container := h.fits.containers _ h.fits.module
  rw [Store.isContainer, h.module, Node.giveChildren_body, Node.isContainer_mapChildren] at container
  rw [Store.children, h.module, Node.giveChildren_body, Body.children_mapChildren container, internal]
  exact List.mem_append_right _ (List.mem_singleton_self _)

/-- The namespaces that are created by a policy. -/
def Policy.namespaces (policy : Policy) : Set (Kind × Value) := {(.nameSpace, policy.namespaceName)}

/-- A run from one stage of a module to a later one. A namespace that was not there before is made in it, for no symbol,
and has the name that the policy says. -/
def Leads (g : Ground) (job : Job) (p q : Progress) : Prop :=
  ∃ made, Run g job.policy.namespaces p.workspace made q.workspace ∧
    ∀ id, q.internal = some id → p.internal = some id ∨ (none, id) ∈ made

theorem Leads.edits (leads : Leads g job p q) : Edits g job.policy.namespaces p.workspace q.workspace :=
  leads.imp fun _ => And.left

theorem Leads.trans {r : Progress} (h : Leads g job p q) (h' : Leads g job q r) : Leads g job p r := by
  obtain ⟨made, run, old⟩ := h
  obtain ⟨made', run', old'⟩ := h'
  refine ⟨made ++ made', run.trans run', fun id internal => ?_⟩
  rcases old' id internal with here | new
  · exact (old id here).imp_right (List.mem_append_left _)
  · exact Or.inr (List.mem_append_right _ new)

theorem Leads.of_edits {w : Workspace} {r : ModuleReport} (edits : Edits g job.policy.namespaces p.workspace w) :
    Leads g job p ⟨w, r, p.internal⟩ :=
  edits.imp fun _ run => ⟨run, fun _ => Or.inl⟩

theorem Opens.leads (opens : Opens job p id q) (h : Fits g job p) (placed : Placed g p.workspace job.module) :
    Leads g job p q := by
  cases opens with
  | «open» => exact .of_edits (.refl _)
  | created _ quiet =>
    have site : Site g (p.workspace.activate job.program) job.module := (h.site placed).congr rfl
    have alike : Alike p.workspace (p.workspace.activate job.program) := ⟨rfl, rfl, rfl, rfl⟩
    have extra : Extra (p.workspace.activate job.program) job.policy.namespaces job.module .nameSpace
        job.policy.namespaceName := .nameSpace placed.tracked rfl
    have activated : Run g job.policy.namespaces p.workspace _ (p.workspace.activate job.program) :=
      Run.start.edit (.noted alike)
    refine ⟨_, (activated.edit (.created site extra)).edit (.noted quiet.alike), fun id internal => Or.inr ?_⟩
    cases internal
    exact List.mem_singleton_self _

/-- Whatever becomes of a symbol is made of edits. -/
theorem Resolves.leads {u : Workspace} (resolves : Resolves job p symbol q) (h : Underway g job u tried p)
    (placed : Placed g u job.module) (named : symbol < g.top) (unbound : p.workspace.nodeOf? symbol = none) :
    Leads g job p q := by
  have placed' := h.placed placed
  cases resolves with
  | skipped => exact .of_edits (.refl _)
  | dropped _ _ _ quiet => exact .of_edits quiet.edits
  | aliased _ known _ quiet =>
    obtain ⟨x, way, mem, _⟩ := below_of_namesake h.fits.sound known
    obtain ⟨above, _, declaration⟩ := declaration_of_namesake h.fits.sound known
    have way : p.workspace.store.Reaches g.project x := Relation.ReflTransGen.mono
      (fun x y step => Node.mem_successors.2 (Or.inl (Node.mem_parts_of_mem_children step))) _ _ way
    have way' := way.trans (.single (Node.mem_successors.2 (Or.inl (Node.mem_parts_of_mem_children mem))))
    have bound : Edit g job.policy.namespaces p.workspace [] (p.workspace.register job.module _ (some symbol)) :=
      .bound placed'.tracked named unbound above way' declaration
    exact .of_edits (bound.edits.trans quiet.edits)
  | unresolved => exact .of_edits (.refl _)
  | undescribed _ _ _ _ opens _ quiet =>
    exact (opens.leads h.fits placed').trans (.of_edits quiet.edits)
  | synthesized _ _ creates _ opens _ converts quiet =>
    have prepared := opens.prepared h.fits
    have opened := h.opens creates opens
    have way := (opened.fits.site (opened.placed placed)).way.trans (.single (Node.mem_successors.2
      (Or.inl (Node.mem_parts_of_mem_children (opened.child_internal prepared.internal)))))
    exact (opens.leads h.fits placed').trans
      (.of_edits ((converts.edits (prepared.hosts named) way).trans quiet.edits))

theorem Course.leads (h : Fits g job start) (fresh : start.internal = none)
    (placed : Placed g start.workspace job.module) (course : Course job start tried pending p) :
    Leads g job start p := by
  induction course with
  | start => exact .of_edits (.refl _)
  | again _ _ _ ih => exact ih
  | step course resolves ih =>
    obtain ⟨_, named, unbound⟩ := course.turn h fresh
    exact ih.trans (resolves.leads (course.underway h fresh).1 placed named unbound)

/-! ## Turns and passes -/

/-- A namespace that stays empty was created in the turn, and for no symbol. -/
theorem Turn.edits (turn : Turn job w r w') (h : Fits g job (job.begin w)) (placed : Placed g w job.module) :
    Edits g job.policy.namespaces w w' := by
  obtain ⟨quiet, course, _, settles⟩ := turn
  have fits := h.quiet quiet
  have leads := course.leads fits rfl (placed.quiet quiet)
  refine (quiet.edits.trans ?_).trans (edits_activate _ none)
  cases settles with
  | bare => exact leads.edits
  | kept => exact leads.edits
  | pruned internal empty =>
    have underway := (course.underway fits rfl).1
    obtain ⟨made, run, new⟩ := leads
    refine ⟨made, run.removed (underway.removable internal empty) ((new _ internal).resolve_left nofun) ?_⟩
    obtain ⟨_, children, eq⟩ := underway.internal internal
    rw [eq]
    show Kind.nameSpace.meets trackedKinds = false
    decide

/-- A turn that breaks off is made of edits, too. -/
theorem Stalled.edits (stalled : Stalled job w w') (h : Fits g job (job.begin w)) (placed : Placed g w job.module) :
    Edits g job.policy.namespaces w w' := by
  obtain ⟨quiet, tried, symbol, rest, p, course, breaks⟩ := stalled
  have fits := h.quiet quiet
  have placed := placed.quiet quiet
  obtain ⟨id, opens⟩ := breaks.opens
  have under := (course.underway fits rfl).1
  have leads := (course.leads fits rfl placed).trans (opens.leads under.fits (under.placed placed))
  exact (quiet.edits.trans leads.edits).trans (edits_activate _ none)

/-- The modules of a pass are modules, or the project. -/
def Tracks (modules : List NodeId) (w : Workspace) : Prop := ∀ m ∈ modules, (w.store.node m).isKind trackedKinds = true

theorem Tracks.passed {ms : List NodeId} (h : Tracks modules w) (ahead : Ahead g modules w)
    (passed : Passed g policy ms w w') : Tracks modules w' := by
  intro m mem
  rw [Node.isKind, (passed.outgrows policy.namespaceName fun _ => rfl).kind (ahead.inside mem)]
  exact h m mem

theorem Passes.edits (passes : Passes known policy modules rest w rs w') (h : Ahead g modules w)
    (tracks : Tracks modules w) (sub : ∀ m ∈ rest, m ∈ modules) : Edits g policy.namespaces w w' := by
  induction passes with
  | nil w => exact .refl w
  | clean _ _ ih => exact ih h tracks fun m mem => sub m (List.mem_cons_of_mem _ mem)
  | @turn m rest w w₁ w' r rs _ turn _ ih =>
    have here := sub m List.mem_cons_self
    have fits := h.fits ⟨m, modules, known.find? m, policy⟩ rfl here
    have passed := turn.passed fits
    refine (turn.edits fits (h.placement here (tracks m here))).trans ?_
    exact ih (h.passed passed) (tracks.passed h passed) fun m mem => sub m (List.mem_cons_of_mem _ mem)

theorem Stopped.edits (stopped : Stopped known policy modules rest w w') (h : Ahead g modules w)
    (tracks : Tracks modules w) (sub : ∀ m ∈ rest, m ∈ modules) : Edits g policy.namespaces w w' := by
  obtain @⟨before, after, m, rs, _, u, _, passes, _, stalled⟩ := stopped
  have sub' : ∀ m ∈ before, m ∈ modules := fun m mem => sub m (List.mem_append_left _ mem)
  have here := sub m (List.mem_append_right _ List.mem_cons_self)
  have passed := passes.passed h sub'
  have ahead := h.passed passed
  have fits := ahead.fits ⟨m, modules, known.find? m, policy⟩ rfl here
  exact (passes.edits h tracks sub').trans (stalled.edits fits (ahead.placement here (tracks.passed h passed m here)))

theorem Stopped.settings (stopped : Stopped known policy modules rest w w') (h : Ahead g modules w)
    (sub : ∀ m ∈ rest, m ∈ modules) : w'.settings = w.settings := by
  obtain @⟨before, after, m, rs, _, u, _, passes, _, stalled⟩ := stopped
  have sub' : ∀ m ∈ before, m ∈ modules := fun m mem => sub m (List.mem_append_left _ mem)
  have passed := passes.passed h sub'
  have fits := (h.passed passed).fits ⟨m, modules, known.find? m, policy⟩ rfl
    (sub m (List.mem_append_right _ List.mem_cons_self))
  obtain ⟨quiet, _, _, _, p, course, breaks⟩ := stalled
  have under := (course.underway (fits.quiet quiet) rfl).1
  obtain ⟨id, opens⟩ := breaks.opens
  exact ((under.opens breaks.stuck.creates opens).settings.trans quiet.settings).trans passed.settings

theorem Cleared.edits (h : Cleared w w') : Edits g extras w w' := Alike.edits ⟨h.store, h.project, h.bindings, h.listeners⟩

theorem tracks_modules (root : (w.store.node w.project).isKind trackedKinds = true) : Tracks w.modules w := by
  intro m mem
  unfold Workspace.modules at mem
  split at mem
  · exact List.mem_singleton.1 mem ▸ root
  · refine decide_eq_true fun none => ?_
    have some : (w.store.node m).kind.bits &&& 2 ≠ 0 := of_decide_eq_true (List.mem_filter.1 mem).2
    have flag : (w.store.node m).kind.bits &&& 2 = ((w.store.node m).kind.bits &&& 3) &&& 2 := by
      rw [Nat.and_assoc]
      rfl
    rw [flag, show (w.store.node m).kind.bits &&& 3 = 0 from none, Nat.zero_and] at some
    exact some rfl

/-- A pass is made of edits. -/
theorem Resolution.edits (resolution : Resolution policy w rs w') (h : Sound g w) (tracks : Tracks w.modules w) :
    Edits g policy.namespaces w w' := by
  obtain ⟨v, u, quiet, ahead, passes, cleared⟩ := resolution.turns h
  exact (quiet.edits.trans (passes.edits ahead (fun m mem => quiet.store ▸ tracks m mem) fun m mem => mem)).trans
    cleared.edits

theorem Abort.edits (abort : Abort policy w w') (h : Sound g w) (tracks : Tracks w.modules w) :
    Edits g policy.namespaces w w' := by
  obtain ⟨quiet, stopped, cleared⟩ := abort
  exact (quiet.edits.trans (stopped.edits (h.ahead_of_quiet quiet) (fun m mem => quiet.store ▸ tracks m mem)
    fun m mem => mem)).trans cleared.edits

theorem edits_resolve (h : Sound g w) (ask : w.policy = .ok policy)
    (root : (w.store.node w.project).isKind trackedKinds = true) :
    Edits g policy.namespaces w w.resolve.2 := by
  have tracks := tracks_modules root
  rcases resolve_outcome h ask with ⟨rs, w', eq, resolution⟩ | ⟨w', eq, abort⟩
  · rw [eq]
    exact resolution.edits h tracks
  · rw [eq]
    exact abort.edits h tracks

/-! ## Any number of passes -/

/-- What loading a document and any number of passes lead to. Options may be set before each of them;
setting options or a pass may have failed. -/
inductive Workspace.Reached (document : Value) : Workspace → Prop
  | opened {w : Workspace} : w.Opened document → Reached document w
  | configured {w : Workspace} (options : List (String × Value)) :
      Reached document w → Reached document (w.setOptions options).2
  | resolved {w : Workspace} : Reached document w → Reached document w.resolve.2

/-- What is done with a loaded project: options are set, or a pass is run. -/
inductive Workspace.Command
  | set (options : List (String × Value))
  | resolve

namespace Workspace

/-- Runs a command. The answer is what went wrong, or the report of the pass if there was one. -/
def run (w : Workspace) : Command → Except Error (Option Report) × Workspace
  | .set options => ((w.setOptions options).1.map fun _ => none, (w.setOptions options).2)
  | .resolve => w.resolve

/-- Runs commands one after the other, whatever the answers. -/
def execute (w : Workspace) : List Command → List (Except Error (Option Report)) × Workspace
  | [] => ([], w)
  | c :: cs => ((w.run c).1 :: ((w.run c).2.execute cs).1, ((w.run c).2.execute cs).2)

/-- The namespaces that may be created when commands are run: each has the name that the options say when a pass
starts. -/
def namespaces (w : Workspace) : List Command → Set (Kind × Value)
  | [] => ∅
  | c :: cs =>
    {e | c = .resolve ∧ ∃ policy, w.policy = .ok policy ∧ e ∈ policy.namespaces} ∪
      (w.run c).2.namespaces cs

theorem Reached.run {document : Value} (reached : w.Reached document) (c : Command) :
    (w.run c).2.Reached document := by
  cases c with
  | set options => exact .configured options reached
  | resolve => exact .resolved reached

theorem Reached.execute {document : Value} (reached : w.Reached document) (cs : List Command) :
    (w.execute cs).2.Reached document := by
  induction cs generalizing w with
  | nil => exact reached
  | cons c cs ih => exact ih (reached.run c)

end Workspace

/-- What is known of a workspace as long as nothing but passes change it. -/
structure Stands (document : Value) (g : Ground) (w : Workspace) : Prop where
  sound : Sound g w
  configured : w.settings.Configured
  origin : ∃ u, Document.ProgramsRead document u ∧ Document.Origin g u ∧ Edits g Set.univ u w

variable {document : Value}

theorem Document.Ready.stands (h : Document.Ready document g w) : Stands document g w := by
  obtain ⟨u, read, origin, edits⟩ := h.origin
  exact ⟨h.sound, h.configured, u, read, origin, edits.mono (Set.subset_univ _)⟩

theorem alike_setOptions (options : List (String × Value)) (w : Workspace) : Alike w (w.setOptions options).2 := by
  rw [setOptions_same options w]
  exact ⟨rfl, rfl, rfl, rfl⟩

theorem settings_resolve (h : Sound g w) (ask : w.policy = .ok policy) : w.resolve.2.settings = w.settings := by
  rcases resolve_outcome h ask with ⟨rs, w', eq, resolution⟩ | ⟨w', eq, abort⟩
  · rw [eq]
    exact (resolution.passed h).settings
  · rw [eq]
    obtain ⟨quiet, stopped, cleared⟩ := abort
    refine cleared.settings.trans (Eq.trans ?_ quiet.settings)
    exact stopped.settings (h.ahead_of_quiet quiet) fun m mem => mem

theorem Stands.edited (h : Stands document g w) (ask : w.policy = .ok policy) :
    Edits g policy.namespaces w w.resolve.2 := by
  obtain ⟨u, _, origin, edits⟩ := h.origin
  have root : (w.store.node w.project).isKind trackedKinds = true := by
    rw [h.sound.project, Node.isKind, edits.kind origin.sound origin.sound.layout.project_lt_size]
    exact origin.root
  exact edits_resolve h.sound ask root

theorem Stands.run (h : Stands document g w) (c : Command) :
    Stands document g (w.run c).2 ∧ Edits g (w.namespaces [c]) w (w.run c).2 := by
  obtain ⟨u, read, origin, before⟩ := h.origin
  obtain ⟨configured, edits⟩ : (w.run c).2.settings.Configured ∧ Edits g (w.namespaces [c]) w (w.run c).2 := by
    cases c with
    | set options => exact ⟨configured_setOptions options h.configured, (alike_setOptions options w).edits⟩
    | resolve =>
      obtain ⟨_, _, ask⟩ := policy_of_configured h.configured
      refine ⟨(settings_resolve h.sound ask).symm ▸ h.configured, (h.edited ask).mono ?_⟩
      exact fun _ mem => Or.inl ⟨rfl, _, ask, mem⟩
  exact ⟨⟨edits.sound h.sound, configured, u, read, origin, before.trans (edits.mono (Set.subset_univ _))⟩, edits⟩

/-- Commands are made of edits, and give namespaces the names that the options said. -/
theorem Stands.execute (h : Stands document g w) (cs : List Command) :
    Stands document g (w.execute cs).2 ∧ Edits g (w.namespaces cs) w (w.execute cs).2 := by
  induction cs generalizing w with
  | nil => exact ⟨h, .refl w⟩
  | cons c cs ih =>
    obtain ⟨next, first⟩ := h.run c
    obtain ⟨last, rest⟩ := ih next
    have sub : w.namespaces [c] ⊆ w.namespaces (c :: cs) := Set.union_subset_union_right _ (Set.empty_subset _)
    exact ⟨last, (first.mono sub).trans (rest.mono Set.subset_union_right)⟩

theorem Workspace.Opened.edited (opened : w.Opened document) (commands : List Command) :
    ∃ g u, Document.ProgramsRead document u ∧ Document.Origin g u ∧
      Edits g (Document.listedModules document ∪ w.namespaces commands) u (w.execute commands).2 ∧
      Stands document g (w.execute commands).2 := by
  obtain ⟨g, ready⟩ := opened.ready
  obtain ⟨u, read, origin, loaded⟩ := ready.origin
  obtain ⟨stands, more⟩ := ready.stands.execute commands
  exact ⟨g, u, read, origin, (loaded.mono Set.subset_union_left).trans (more.mono Set.subset_union_right), stands⟩

/-- Every workspace that is reached from a document stands on its ground. -/
theorem Workspace.Reached.stands (reached : w.Reached document) : ∃ g, Stands document g w := by
  induction reached with
  | opened opened => exact opened.ready.imp fun _ ready => ready.stands
  | configured options _ ih => exact ih.imp fun _ stands => (stands.run (.set options)).1
  | resolved _ ih => exact ih.imp fun _ stands => (stands.run .resolve).1

theorem Stands.orderly (h : Stands document g w) : Orderly g w := by
  obtain ⟨u, _, origin, edits⟩ := h.origin
  exact edits.orderly origin.sound origin.orderly

end DocTree
