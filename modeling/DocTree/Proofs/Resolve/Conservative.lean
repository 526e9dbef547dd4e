import DocTree.Proofs.Resolve.Completeness
import DocTree.Proofs.Resolve.Reached

/-!
# What a pass leaves of the tree

A pass puts at most one namespace behind the children of a module. Everything else is left as it was.

* `Course.synthesized_eq` : in the course of a run, the namespace holds just what was synthesized;
* `Course.nodes_eq` : a run that may create nothing leaves all nodes alone;
* `Gains policy w w' rs m` : what a module gains in a pass; `Turn.gains`, `Passes.gains`;
* `conservative_of_reached` : after any number of passes, a pass is a conservative extension.
-/

namespace DocTree

open Workspace

variable {g : Ground} {policy : Policy} {known : OrdMap NodeId Value} {modules rest tried pending : List NodeId}
  {w w₁ w' : Workspace} {job : Job} {start p q : Progress} {symbol : SymbolId} {scope id m : NodeId}
  {r : ModuleReport} {rs : Report}

/-! ## The namespace -/

/-- A symbol that gets a declaration is put behind the children of the scope. -/
theorem Workspace.Converts.widened (converts : Converts w scope [symbol] w') (hosts : Hosts g w scope [symbol])
    (unbound : w.nodeOf? symbol = none) (described : (w.store.symbol symbol).description.isSome) :
    w'.store.node scope = (w.store.node scope).giveChildren [w.store.nodes.size] := by
  cases converts with
  | known declared =>
    rw [hosts.sound.declarationOf?_eq, unbound] at declared
    cases declared
  | undescribed _ none =>
    rw [none] at described
    cases described
  | @fresh w w₁ _ _ _ _ d _ eq members rest =>
    cases rest
    have grown := (declared_declare w hosts.inside symbol d).sprouts
    have q := quiet_announce (w.declare scope symbol d).2 scope w.store.nodes.size
    have inner := members.spec ((hosts.declared unbound eq).quiet q)
    have inside : scope < ((w.declare scope symbol d).2.announce scope w.store.nodes.size).store.nodes.size := by
      rw [q.store]
      exact Nat.lt_trans hosts.inside grown.size
    rw [inner.ext.same inside (Nat.ne_of_lt hosts.inside), q.store, grown.widened]

/-- The namespace holds just what was synthesized. -/
def Tells (p : Progress) : Prop :=
  match p.internal with
  | none => p.report.synthesized = []
  | some id => p.workspace.store.children id = p.report.synthesized

theorem Opens.tells (opens : Opens job p id q) (h : Fits g job p) (tells : Tells p) :
    q.workspace.store.children id = q.report.synthesized := by
  unfold Tells at tells
  cases opens with
  | «open» internal =>
    rw [internal] at tells
    exact tells
  | created fresh quiet =>
    rw [fresh] at tells
    have node := (node_create (w := p.workspace.activate job.program) .nameSpace job.policy.namespaceName none h.inside
      p.workspace.store.nodes.size).trans (if_pos rfl)
    show Store.children _ p.workspace.store.nodes.size = p.report.synthesized
    rw [tells, Store.children, quiet.store]
    exact congrArg (fun n : Node => n.body.children) node

/-- Whatever becomes of a symbol, the namespace holds just what was synthesized. -/
theorem Resolves.tells (resolves : Resolves job p symbol q) (h : Fits g job p) (named : symbol < g.top)
    (unbound : p.workspace.nodeOf? symbol = none) (tells : Tells p) : Tells q := by
  have noted : ∀ {w : Workspace} {r : ModuleReport}, (∀ id, w.store.node id = p.workspace.store.node id) →
      r.synthesized = p.report.synthesized → Tells ⟨w, r, p.internal⟩ := by
    intro w r node same
    unfold Tells Store.children at tells ⊢
    simp only [node, same]
    exact tells
  cases resolves with
  | skipped => exact noted (fun _ => rfl) rfl
  | dropped _ _ _ quiet => exact noted (fun id => by rw [quiet.store]) rfl
  | aliased _ _ _ quiet => exact noted (fun id => by rw [quiet.store, node_register]) rfl
  | unresolved => exact noted (fun _ => rfl) rfl
  | @undescribed id q w _ _ _ _ opens _ quiet =>
    unfold Tells
    rw [(opens.prepared h).internal, quiet.store]
    exact opens.tells h tells
  | @synthesized id q d w₁ w _ _ _ _ opens described converts quiet =>
    have prepared := opens.prepared h
    have hosts := prepared.hosts named
    have described' : (q.workspace.store.symbol symbol).description.isSome := by
      rw [Store.symbol, prepared.symbols, ← Store.symbol, described]
      rfl
    have widened := converts.widened hosts ((prepared.nodeOf? symbol).trans unbound) described'
    unfold Tells
    rw [prepared.internal]
    show w.store.children id = _
    rw [Store.children, quiet.store, widened, Node.giveChildren_body, Body.children_mapChildren hosts.container]
    exact congrArg (· ++ _) (opens.tells h tells)

theorem Course.tells (h : Fits g job start) (fresh : start.internal = none) (blank : start.report.synthesized = [])
    (course : Course job start tried pending p) : Tells p := by
  induction course with
  | start =>
    show match start.internal with | none => _ | some id => _
    rw [fresh]
    exact blank
  | again _ _ _ ih => exact ih
  | step course resolves ih =>
    obtain ⟨_, named, unbound⟩ := course.turn h fresh
    exact resolves.tells (course.underway h fresh).1.fits named unbound ih

/-- The rounds leave it to the end to say what was created. -/
theorem Course.entry (course : Course job start tried pending p) :
    p.report.module = start.report.module ∧ p.report.created = start.report.created := by
  have opened : ∀ {p q : Progress} {id}, Opens job p id q → q.report = p.report := by
    intro p q id opens
    cases opens <;> rfl
  induction course with
  | start => exact ⟨rfl, rfl⟩
  | again _ _ _ ih => exact ih
  | step _ resolves ih =>
    cases resolves with
    | undescribed _ _ _ _ opens => exact opened opens ▸ ih
    | synthesized _ _ _ _ opens => exact opened opens ▸ ih
    | _ => exact ih

/-- A run that may create nothing leaves all nodes alone. -/
theorem Course.nodes_eq (linkOnly : job.policy.linkOnly = true) (course : Course job start tried pending p) :
    p.workspace.store.nodes = start.workspace.store.nodes := by
  induction course with
  | start => rfl
  | again _ _ _ ih => exact ih
  | step _ resolves ih =>
    refine Eq.trans ?_ ih
    cases resolves with
    | skipped => rfl
    | dropped _ _ _ quiet => exact congrArg Store.nodes quiet.store
    | aliased _ _ _ quiet => exact (congrArg Store.nodes quiet.store).trans (nodes_register ..)
    | unresolved => rfl
    | undescribed _ _ creates | synthesized _ _ creates =>
      rw [linkOnly] at creates
      cases creates

theorem Course.internal_of_linkOnly (linkOnly : job.policy.linkOnly = true) (fresh : start.internal = none)
    (course : Course job start tried pending p) : p.internal = none := by
  induction course with
  | start => exact fresh
  | again _ _ _ ih => exact ih
  | step _ resolves ih =>
    cases resolves with
    | undescribed _ _ creates | synthesized _ _ creates =>
      rw [linkOnly] at creates
      cases creates
    | _ => exact ih

/-! ## Turns -/

/-- What a module gains in a pass: nothing, or a namespace behind its other children that holds what
was synthesized for the module, in this order. -/
inductive Gains (policy : Policy) (w w' : Workspace) (rs : Report) (m : NodeId) : Prop
  | nothing : (∀ r ∈ rs, r.module = m → r.synthesized = [] ∧ r.created = none) →
      w'.store.node m = w.store.node m → Gains policy w w' rs m
  | nameSpace {r : ModuleReport} {id : NodeId} : r ∈ rs → r.module = m → r.synthesized ≠ [] → r.created = some id →
      w.store.nodes.size ≤ id → id < w'.store.nodes.size → w'.store.node m = (w.store.node m).giveChildren [id] →
      w'.store.node id =
        ⟨policy.namespaceName, .nameSpace, some m, .declaration { children := r.synthesized }⟩ →
      Gains policy w w' rs m

/-- What a module gains in its turn. -/
theorem Turn.gains (turn : Turn job w r w') (h : Fits g job (job.begin w)) :
    r.module = job.module ∧ Gains job.policy w w' [r] job.module := by
  obtain @⟨u, p, q, quiet, course, _, settles⟩ := turn
  have fits := h.quiet quiet
  have under := (course.underway fits rfl).1
  have tells := course.tells fits rfl rfl
  have entry : p.report.module = job.module ∧ p.report.created = none := course.entry
  have only : ∀ {r' : ModuleReport}, r'.synthesized = [] → r'.created = none →
      ∀ r ∈ [r'], r.module = job.module → r.synthesized = [] ∧ r.created = none := by
    intro r' none none' r mem _
    rw [List.mem_singleton.1 mem]
    exact ⟨none, none'⟩
  have before : u.store = w.store := quiet.store
  unfold Tells at tells
  cases settles with
  | bare internal =>
    rw [internal] at tells
    refine ⟨entry.1, .nothing (only tells entry.2) ?_⟩
    refine under.module.trans ?_
    rw [internal, Option.toList_none, Node.giveChildren_nil]
    exact congrArg (Store.node · _) before
  | @kept id internal some =>
    rw [internal] at tells
    have tells : p.workspace.store.children id = p.report.synthesized := tells
    obtain ⟨above, children, node⟩ := under.internal internal
    have inside : id < p.workspace.store.nodes.size := by
      by_contra outside
      exact some (Store.children_of_size_le (Nat.le_of_not_lt outside))
    refine ⟨entry.1, .nameSpace (List.mem_singleton_self _) entry.1 (tells ▸ some) rfl (before ▸ above) inside ?_ ?_⟩
    · refine under.module.trans ?_
      rw [internal]
      exact congrArg (fun s => (Store.node s job.module).giveChildren [id]) before
    · refine node.trans ?_
      rw [Store.children, node] at tells
      rw [show p.report.synthesized = children from tells.symm]
  | @pruned id internal empty =>
    rw [internal] at tells
    refine ⟨entry.1, .nothing (only (tells.symm.trans empty) entry.2) ?_⟩
    exact (under.node_pruned fits.sound internal empty under.module_lt).trans (congrArg (Store.node · _) before)

theorem Turn.nodes_eq (turn : Turn job w r w') (linkOnly : job.policy.linkOnly = true) :
    w'.store.nodes = w.store.nodes := by
  obtain ⟨quiet, course, _, settles⟩ := turn
  have nodes := (course.nodes_eq linkOnly).trans (congrArg Store.nodes quiet.store)
  have bare := course.internal_of_linkOnly linkOnly rfl
  cases settles with
  | bare => exact nodes
  | kept internal =>
    rw [bare] at internal
    cases internal
  | pruned internal =>
    rw [bare] at internal
    cases internal

/-! ## Passes -/

/-- The gain of a module stays when the other modules have their turns. -/
theorem Gains.later (gains : Gains policy w w₁ [r] m) (h : Passed g policy rest w₁ w')
    (le : w.store.nodes.size ≤ w₁.store.nodes.size) (inside : m < w.store.nodes.size) (other : m ∉ rest)
    (old : ∀ m' ∈ rest, m' < w.store.nodes.size)
    (apart : ∀ r' ∈ rs, r'.module ∈ rest) : Gains policy w w' (r :: rs) m := by
  have here : w'.store.node m = w₁.store.node m := h.same (Nat.lt_of_lt_of_le inside le) other
  cases gains with
  | nothing none same =>
    refine .nothing (fun r' mem eq => ?_) (here.trans same)
    rcases List.mem_cons.1 mem with rfl | mem
    · exact none _ (List.mem_singleton_self _) eq
    · exact absurd (eq ▸ apart r' mem) other
  | @nameSpace r' id mem eq some created above below widened node =>
    have new : id ∉ rest := fun mem => absurd (old id mem) (Nat.not_lt_of_le above)
    refine .nameSpace (List.mem_cons.2 (Or.inl (List.mem_singleton.1 mem))) eq some created above ?_
      (here.trans widened) ((h.same below new).trans node)
    exact Nat.lt_of_lt_of_le below (h.outgrows policy.namespaceName fun _ => rfl).size

/-- The gain of a module whose turn comes later. -/
theorem Gains.earlier (gains : Gains policy w₁ w' rs m) (same : w₁.store.node m = w.store.node m)
    (le : w.store.nodes.size ≤ w₁.store.nodes.size) (other : r.module ≠ m) : Gains policy w w' (r :: rs) m := by
  cases gains with
  | nothing none same' =>
    refine .nothing (fun r' mem eq => ?_) (same'.trans same)
    rcases List.mem_cons.1 mem with rfl | mem
    · exact absurd eq other
    · exact none r' mem eq
  | nameSpace mem eq some created above below widened node =>
    exact .nameSpace (List.mem_cons_of_mem _ mem) eq some created (Nat.le_trans le above) below (same ▸ widened) node

/-- A report has at most one entry for a module, in the order of the modules. -/
theorem Passes.sublist (passes : Passes known policy modules rest w rs w') (h : Ahead g modules w)
    (sub : ∀ m ∈ rest, m ∈ modules) : (rs.map (·.module)).Sublist rest := by
  induction passes with
  | nil => exact List.nil_sublist _
  | clean _ _ ih => exact (ih h fun m mem => sub m (List.mem_cons_of_mem _ mem)).cons _
  | @turn m rest w w₁ w' r rs _ turn _ ih =>
    have fits := h.fits ⟨m, modules, known.find? m, policy⟩ rfl (sub m List.mem_cons_self)
    have later := ih (h.passed (turn.passed fits)) fun m mem => sub m (List.mem_cons_of_mem _ mem)
    rw [List.map_cons, (turn.gains fits).1]
    exact later.cons_cons m

/-- What each module gains when all have their turns. -/
theorem Passes.gains (passes : Passes known policy modules rest w rs w') (h : Ahead g modules w)
    (sub : ∀ m ∈ rest, m ∈ modules) (nodup : rest.Nodup) (here : m ∈ rest) : Gains policy w w' rs m := by
  induction passes with
  | nil => cases here
  | @clean m' rest w w' rs _ passes ih =>
    have sub' : ∀ m ∈ rest, m ∈ modules := fun m mem => sub m (List.mem_cons_of_mem _ mem)
    obtain ⟨other, nodup⟩ := List.nodup_cons.1 nodup
    rcases List.mem_cons.1 here with rfl | here
    · refine .nothing (fun r mem eq => absurd ?_ other) ((passes.passed h sub').same (h.inside (sub m here)) other)
      exact eq ▸ (passes.sublist h sub').subset (List.mem_map_of_mem mem)
    · exact ih h sub' nodup here
  | @turn m' rest w w₁ w' r rs _ turn passes ih =>
    have sub' : ∀ m ∈ rest, m ∈ modules := fun m mem => sub m (List.mem_cons_of_mem _ mem)
    obtain ⟨other, nodup⟩ := List.nodup_cons.1 nodup
    have fits := h.fits ⟨m', modules, known.find? m', policy⟩ rfl (sub m' List.mem_cons_self)
    have first := turn.passed fits
    have ahead := h.passed first
    have le := (first.outgrows policy.namespaceName fun _ => rfl).size
    obtain ⟨entry, gains⟩ := turn.gains fits
    rcases List.mem_cons.1 here with rfl | here
    · refine gains.later (passes.passed ahead sub') le (h.inside (sub m here)) other
        (fun m' mem => h.inside (sub' m' mem)) fun r' mem => ?_
      exact (passes.sublist ahead sub').subset (List.mem_map_of_mem mem)
    · have ne : m ≠ m' := fun eq => other (eq ▸ here)
      have same := first.same (h.inside (sub' m here)) fun mem => ne (List.mem_singleton.1 mem)
      exact (ih ahead sub' nodup here).earlier same le fun eq => ne (eq.symm.trans entry)

theorem Passes.nodes_eq (passes : Passes known policy modules rest w rs w') (linkOnly : policy.linkOnly = true) :
    w'.store.nodes = w.store.nodes := by
  induction passes with
  | nil => rfl
  | clean _ _ ih => exact ih
  | turn _ turn _ ih => exact ih.trans (turn.nodes_eq linkOnly)

/-- A pass that changes nothing but what it reports. -/
structure Conservative (policy : Policy) (w : Workspace) (rs : Report) (w' : Workspace) : Prop where
  /-- At most one entry for each module. -/
  entries : (rs.map (·.module)).Sublist w.modules ∧ w.modules.Nodup
  /-- All modules can hold children. -/
  containers : ∀ m ∈ w.modules, w.store.isContainer m = true
  /-- A module gains at most a namespace with what was synthesized. -/
  gains : ∀ m ∈ w.modules, Gains policy w w' rs m
  /-- All other nodes stay as they are. -/
  same : ∀ id < w.store.nodes.size, id ∉ w.modules → w'.store.node id = w.store.node id
  /-- Without permission to create anything, all nodes do. -/
  linkOnly : policy.linkOnly = true → w'.store.nodes = w.store.nodes
  /-- Symbols keep their nodes. -/
  bound : ∀ symbol id, w.nodeOf? symbol = some id → w'.nodeOf? symbol = some id

/-- What each module gains in a pass. -/
theorem Resolution.gains (resolution : Resolution policy w rs w') (h : Sound g w) (mem : m ∈ w.modules) :
    Gains policy w w' rs m := by
  obtain ⟨v, u, quiet, ahead, passes, cleared⟩ := resolution.turns h
  cases passes.gains ahead (fun m mem => mem) h.nodup_modules mem with
  | nothing none same => exact .nothing none (by rw [cleared.store, same, quiet.store])
  | nameSpace mem eq some created above below widened node =>
    rw [quiet.store] at above widened
    exact .nameSpace mem eq some created above (cleared.store ▸ below) (cleared.store ▸ widened) (cleared.store ▸ node)

/-- After any number of passes, a pass is a conservative extension. -/
theorem conservative_of_reached {document : Value} (reached : w.Reached document) (ask : w.policy = .ok policy)
    (ok : w.resolve = (.ok (some rs), w')) : Conservative policy w rs w' := by
  obtain ⟨g, stands⟩ := reached.stands
  have sound := stands.sound
  have resolution := resolution_of_ok sound ask ok
  have passed := resolution.passed sound
  obtain ⟨v, u, quiet, ahead, passes, cleared⟩ := resolution.turns sound
  have nodes : u.store.nodes = w'.store.nodes := congrArg Store.nodes cleared.store.symm
  refine ⟨⟨passes.sublist ahead fun m mem => mem, sound.nodup_modules⟩, fun m => sound.ahead.isContainer,
    fun m mem => resolution.gains sound mem, fun id => passed.same, fun linkOnly => ?_, fun symbol id => passed.bound⟩
  exact nodes.symm.trans ((passes.nodes_eq linkOnly).trans (congrArg Store.nodes quiet.store))

theorem conservative_of_reached_leftover :
    ∃ rs, besideLeftover.resolve = (.ok (some rs), besideLeftover.resolve.2) ∧
      Conservative ⟨.str "internal", false⟩ besideLeftover rs besideLeftover.resolve.2 := by
  obtain ⟨rs, ok⟩ := resolve_leftover
  exact ⟨rs, ok, conservative_of_reached (.opened opened_leftover) policy_leftover ok⟩

end DocTree
