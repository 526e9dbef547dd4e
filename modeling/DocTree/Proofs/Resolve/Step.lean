import DocTree.Proofs.Convert.Converts
import DocTree.Proofs.Outcome
import DocTree.Proofs.Store.Lookup
import DocTree.Resolve

/-!
# What becomes of a symbol

* `Workspace.namesake?` : the node that the project knows by the name of a symbol;
* `Fits g job p` : a module can be resolved from here;
* `Opens job p id q` : `id` is the namespace for the module, new or not;
* `Resolves job p symbol q` : what may become of a symbol, case by case;
* `Breaks job p symbol e q` : no program is known for what would have to be created;
* `resolveSymbol_meets` : one of these does become of a symbol.
-/

namespace DocTree

/-! ## Namesakes -/

def Workspace.namesake? (w : Workspace) (symbol : SymbolId) : Option NodeId :=
  match (w.store.symbol symbol).name with
  | .str name => w.store.findInProject w.project (.ofString name)
  | _ => none

/-- Whether one of some modules holds a node directly. -/
def HeldBy (modules : List NodeId) (s : Store) (id : NodeId) : Prop := ∃ m ∈ modules, Job.holds s m id = true

/-- Whether the last part of the name of a symbol is `label`. -/
def EndsIn (s : Store) (symbol : SymbolId) (label : Value) : Prop :=
  ∃ name part, (s.symbol symbol).name = .str name ∧ lastPart name = some part ∧ label = .str part

variable {g : Ground} {w : Workspace} {symbol : SymbolId} {id : NodeId}

theorem nodeNamed_eq (h : Sound g w) (named : symbol < g.top) :
    Job.nodeNamed w (w.store.symbol symbol).name = .ok (w.namesake? symbol) := by
  obtain ⟨_, name, _, eq⟩ := h.catalog.named named
  unfold Job.nodeNamed Workspace.namesake?
  rw [eq, h.project]
  exact Store.seek_project h.layout _

theorem below_of_namesake (h : Sound g w) (found : w.namesake? symbol = some id) :
    ∃ x, w.store.Below g.project x ∧ id ∈ w.store.children x ∧ EndsIn w.store symbol (w.store.node id).name := by
  unfold Workspace.namesake? at found
  split at found
  · rename_i name eq
    rw [h.project] at found
    obtain ⟨x, part, way, mem, last, same⟩ := Store.exists_below_of_findInProject found
    exact ⟨x, way, mem, name, part, eq, last, same⟩
  · cases found

theorem declaration_of_namesake (h : Sound g w) (found : w.namesake? symbol = some id) :
    g.base ≤ id ∧ id < w.store.nodes.size ∧ ∃ b, (w.store.node id).body = .declaration b := by
  obtain ⟨x, way, mem, _⟩ := below_of_namesake h found
  obtain ⟨above, below, _, declaration⟩ := h.layout.child (way.proper h.layout (Or.inl rfl)) mem
  exact ⟨above, below, declaration⟩

/-- Looking for the module that holds a node always comes to an end. -/
theorem ownerAmong_eq {s : Store} (strays : s.strays = .empty) {modules : List NodeId}
    (containers : ∀ m ∈ modules, s.isContainer m = true) (id : NodeId) :
    Job.ownerAmong s id modules = .ok (modules.find? fun m => Job.holds s m id) := by
  have flags : ∀ ids : List NodeId, s.haveFlags ids = true := fun ids => by
    unfold Store.haveFlags
    rw [strays]
    exact List.all_eq_true.2 fun id _ => Strays.hasFlags_empty id
  induction modules with
  | nil => rfl
  | cons m modules ih =>
    have asked : Job.inquire s id m = .ok () := by
      unfold Job.inquire
      rw [containers m List.mem_cons_self, flags, Bool.or_true]
      rfl
    unfold Job.ownerAmong
    rw [asked, List.find?_cons, ih fun m mem => containers m (List.mem_cons_of_mem _ mem)]
    show (if Job.holds s m id = true then Except.ok (some m) else _) = _
    cases Job.holds s m id <;> rfl

/-! ## Steps -/

/-- A module can be resolved from here: the modules can hold children, and so can the namespace for
this one, if there is one; then the program of the module is active. -/
structure Fits (g : Ground) (job : Job) (p : Progress) : Prop where
  sound : Sound g p.workspace
  containers : ∀ m ∈ job.modules, p.workspace.store.isContainer m = true
  module : job.module ∈ job.modules
  proper : g.Proper job.module
  internal : ∀ {id}, p.internal = some id →
    g.base ≤ id ∧ p.workspace.store.isContainer id = true ∧ p.workspace.active = job.program

/-- The namespace for the module is at hand, created when it is first asked for. -/
inductive Opens (job : Job) (p : Progress) : NodeId → Progress → Prop
  | open {id : NodeId} : p.internal = some id → Opens job p id p
  | created {w : Workspace} : p.internal = none →
      Workspace.Quiet ((p.workspace.activate job.program).create job.module .nameSpace job.policy.namespaceName none).2
        w → Opens job p p.workspace.store.nodes.size ⟨w, p.report, some p.workspace.store.nodes.size⟩

/-- What may become of a symbol. -/
inductive Resolves (job : Job) (p : Progress) (symbol : SymbolId) : Progress → Prop
  | skipped : (p.workspace.store.symbol symbol).isDefaultExport = true →
      Resolves job p symbol { p with report := { p.report with skipped := p.report.skipped ++ [symbol] } }
  | dropped {id : NodeId} {w : Workspace} : (p.workspace.store.symbol symbol).isDefaultExport = false →
      p.workspace.namesake? symbol = some id → ¬HeldBy job.modules p.workspace.store id → Workspace.Quiet p.workspace w →
      Resolves job p symbol ⟨w, { p.report with dropped := p.report.dropped ++ [symbol] }, p.internal⟩
  | aliased {id : NodeId} {w : Workspace} : (p.workspace.store.symbol symbol).isDefaultExport = false →
      p.workspace.namesake? symbol = some id → HeldBy job.modules p.workspace.store id →
      Workspace.Quiet (p.workspace.register job.module id (some symbol)) w →
      Resolves job p symbol ⟨w, { p.report with aliased := p.report.aliased ++ [(symbol, id)] }, p.internal⟩
  | unresolved : (p.workspace.store.symbol symbol).isDefaultExport = false →
      p.workspace.namesake? symbol = none → job.policy.linkOnly = true →
      Resolves job p symbol { p with report := { p.report with unresolved := p.report.unresolved ++ [symbol] } }
  | undescribed {id : NodeId} {q : Progress} {w : Workspace} :
      (p.workspace.store.symbol symbol).isDefaultExport = false →
      p.workspace.namesake? symbol = none → job.policy.linkOnly = false → job.program.isSome → Opens job p id q →
      (p.workspace.store.symbol symbol).description = none → Workspace.Quiet q.workspace w →
      Resolves job p symbol { q with workspace := w }
  | synthesized {id : NodeId} {q : Progress} {d : Description} {w₁ w : Workspace} :
      (p.workspace.store.symbol symbol).isDefaultExport = false →
      p.workspace.namesake? symbol = none → job.policy.linkOnly = false → job.program.isSome → Opens job p id q →
      (p.workspace.store.symbol symbol).description = some d → Workspace.Converts q.workspace id [symbol] w₁ →
      Workspace.Quiet w₁ w → Resolves job p symbol
        ⟨w, { q.report with synthesized := q.report.synthesized ++ [q.workspace.store.nodes.size] }, q.internal⟩

/-- Something would have to be created for a symbol, and no program is known to create it for. -/
structure Stuck (job : Job) (w : Workspace) (symbol : SymbolId) : Prop where
  proper : (w.store.symbol symbol).isDefaultExport = false
  unknown : w.namesake? symbol = none
  creates : job.policy.linkOnly = false
  program : job.program = none

/-- A module breaks off at a symbol that it is stuck with: the namespace is at hand then, and nothing
is in it for the symbol. -/
structure Breaks (job : Job) (p : Progress) (symbol : SymbolId) (e : Error) (q : Progress) : Prop where
  stuck : Stuck job p.workspace symbol
  error : e = .noActiveProgram
  opens : ∃ id, Opens job p id q

open Workspace

variable {job : Job} {p q : Progress}

/-! ## The namespace for the module -/

theorem Fits.inside (h : Fits g job p) : job.module < p.workspace.store.nodes.size :=
  Store.lt_of_isContainer (h.containers _ h.module)

/-- What having the namespace at hand leaves as it was. -/
structure Prepared (g : Ground) (job : Job) (p : Progress) (id : NodeId) (q : Progress) : Prop where
  fits : Fits g job q
  internal : q.internal = some id
  report : q.report = p.report
  symbols : q.workspace.store.symbols = p.workspace.store.symbols
  size_le : p.workspace.store.nodes.size ≤ q.workspace.store.nodes.size
  node : ∀ {id'}, id' < p.workspace.store.nodes.size →
    ∃ ids, q.workspace.store.node id' = (p.workspace.store.node id').giveChildren ids
  nodeOf? : ∀ symbol, q.workspace.nodeOf? symbol = p.workspace.nodeOf? symbol

theorem Opens.prepared (opens : Opens job p id q) (h : Fits g job p) : Prepared g job p id q := by
  cases opens with
  | «open» internal =>
    exact ⟨h, internal, rfl, rfl, Nat.le_refl _, fun _ => ⟨[], (Node.giveChildren_nil _).symm⟩, fun _ => rfl⟩
  | @created w fresh quiet =>
    obtain ⟨grown, sound⟩ := (h.sound.activate job.program).create h.proper (h.containers _ h.module) h.inside
      .nameSpace job.policy.namespaceName
    have kept := (kept_create (p.workspace.activate job.program) job.module .nameSpace job.policy.namespaceName
      none).trans quiet.kept
    refine ⟨⟨sound.quiet quiet, fun m mem => ?_, h.module, h.proper, ?_⟩, rfl, rfl, kept.symbols, ?_,
      fun {id'} inside => ?_, fun symbol => ?_⟩
    · rw [quiet.store]
      exact grown.isContainer (h.containers m mem)
    · rintro id ⟨⟩
      refine ⟨h.sound.layout.base_le, ?_, kept.active⟩
      obtain ⟨b, body⟩ := grown.declaration
      rw [quiet.store]
      show Body.isContainer (Store.node _ (p.workspace.activate job.program).store.nodes.size).body = true
      rw [body]
      rfl
    · exact quiet.store ▸ Nat.le_of_lt grown.size
    · rw [quiet.store]
      by_cases here : id' = job.module
      · rw [here]
        exact ⟨_, grown.widened⟩
      · exact ⟨[], (grown.same inside here).trans (Node.giveChildren_nil _).symm⟩
    · rw [quiet.nodeOf?, nodeOf?_create (w := p.workspace.activate job.program) h.sound.consistent,
        if_neg (Option.some_ne_none _)]
      rfl

/-- Having the namespace at hand extends the module by it at most. -/
theorem Opens.extends (opens : Opens job p id q) (h : Fits g job p) :
    ∃ w, w.store = p.workspace.store ∧ Extends w job.module [] q.workspace := by
  cases opens with
  | «open» => exact ⟨_, rfl, (Quiet.refl _).extends _⟩
  | created _ quiet =>
    have sound := h.sound.activate job.program
    have container := h.containers _ h.module
    obtain ⟨grown, _⟩ := sound.create h.proper container h.inside .nameSpace job.policy.namespaceName
    refine ⟨p.workspace.activate job.program, rfl, ?_⟩
    exact (extends_of_sprouts grown container (kept_create ..) fun symbol =>
      (nodeOf?_create sound.consistent symbol).trans (if_neg (Option.some_ne_none _))).trans (quiet.extends _)

theorem Prepared.hosts (h : Prepared g job p id q) (named : symbol < g.top) : Hosts g q.workspace id [symbol] := by
  obtain ⟨above, container, _⟩ := h.fits.internal h.internal
  exact ⟨h.fits.sound, Or.inr above, container, fun symbol' mem => Or.inl (List.mem_singleton.1 mem ▸ named)⟩

theorem meets_take {α : Type} {a : α} {w : Workspace} {Q : α → Progress → Prop} {R : Error → Progress → Prop}
    (h : Q a { p with workspace := w }) : Meets (Job.take (.ok a, w)) p Q R :=
  meets_bind (P := fun _ q => q = { p with workspace := w }) (meets_modify rfl) fun _ _ eq => eq ▸ meets_pure h

theorem meets_log {message : Workspace → String} {Q : PUnit → Progress → Prop} {R : Error → Progress → Prop}
    (h : ∀ w, Quiet p.workspace w → Q ⟨⟩ { p with workspace := w }) : Meets (Job.log message) p Q R :=
  meets_modify (h _ (quiet_report ..))

/-- The namespace can always be had. -/
theorem internalNamespace_meets (h : Fits g job p) (R : Error → Progress → Prop) :
    Meets job.internalNamespace p (fun id q => Opens job p id q) R := by
  unfold Job.internalNamespace
  refine meets_bind (P := fun q q' => q = p ∧ q' = p) (meets_get ⟨rfl, rfl⟩) fun q q' eq => ?_
  rw [eq.1, eq.2]
  cases internal : p.internal with
  | some id => exact meets_pure (.open internal)
  | none =>
    refine meets_bind (P := fun _ q => q = { p with workspace := p.workspace.activate job.program }) (meets_modify rfl)
      fun _ q eq => ?_
    subst eq
    refine meets_bind (P := fun q q' => q = { p with workspace := p.workspace.activate job.program } ∧ q' = q)
      (meets_get ⟨rfl, rfl⟩) fun q q' eq => ?_
    rw [eq.2, eq.1]
    let made := (p.workspace.activate job.program).create job.module .nameSpace job.policy.namespaceName none
    have allowed : (p.workspace.activate job.program).create? job.module .nameSpace job.policy.namespaceName none =
      .ok made := if_pos (h.containers _ h.module)
    have plugin : made.2.HasPluginOnly := (kept_create ..).listeners.trans h.sound.plugin
    simp only [allowed, announce?, canAnnounce_of_plugin plugin, if_true]
    refine meets_bind (P := fun _ q => Quiet made.2 q.workspace ∧ q.report = p.report ∧ q.internal = none)
      (meets_take ⟨quiet_announce .., rfl, internal⟩) fun _ q₁ ⟨quiet, report, fresh⟩ => ?_
    refine meets_bind (P := fun _ q => Quiet made.2 q.workspace ∧ q.report = p.report ∧ q.internal = none)
      (meets_log fun w quiet' => ⟨quiet.trans quiet', report, fresh⟩) fun _ q₂ ⟨quiet, report, _⟩ => ?_
    refine meets_bind (P := fun _ q => q = ⟨q₂.workspace, p.report, some p.workspace.store.nodes.size⟩)
      (meets_modify (by rw [← report]; rfl)) fun _ q eq => ?_
    rw [eq]
    exact meets_pure (.created internal quiet)

/-! ## One symbol -/

theorem synthesize_meets (h : Fits g job p) (named : symbol < g.top) (unbound : p.workspace.nodeOf? symbol = none)
    (proper : (p.workspace.store.symbol symbol).isDefaultExport = false)
    (unknown : p.workspace.namesake? symbol = none) (creates : job.policy.linkOnly = false) :
    Meets (job.synthesize symbol) p (fun _ q => Resolves job p symbol q) (Breaks job p symbol) := by
  unfold Job.synthesize
  refine meets_bind (internalNamespace_meets h _) fun id q opens => ?_
  refine meets_bind (P := fun q₁ q₂ => q₁ = q ∧ q₂ = q) (meets_get ⟨rfl, rfl⟩) fun q₁ q₂ eq => ?_
  rw [eq.1, eq.2]
  have prepared := opens.prepared h
  have active := (prepared.fits.internal prepared.internal).2.2
  cases program : job.program with
  | none =>
    rw [convert_inactive _ _ _ (active.trans program)]
    refine meets_bind (P := fun _ _ => False) ?_ fun _ _ absurd => absurd.elim
    exact meets_bind (P := fun _ q' => q' = q) (meets_modify rfl) fun _ _ same =>
      meets_throw ⟨⟨proper, unknown, creates, program⟩, rfl, id, same ▸ opens⟩
  | some name =>
    obtain ⟨w₁, eq, converts⟩ := convert_eq (prepared.hosts named) (by rw [active, program]; rfl)
    have known : job.program.isSome := by rw [program]; rfl
    have same : (q.workspace.store.symbol symbol).description = (p.workspace.store.symbol symbol).description := by
      unfold Store.symbol
      rw [prepared.symbols]
    rw [eq, prepared.nodeOf?, unbound, same]
    refine meets_bind (P := fun answer q₁ => answer = ((p.workspace.store.symbol symbol).description.map
      fun _ => q.workspace.store.nodes.size) ∧ q₁ = { q with workspace := w₁ }) (meets_take ⟨rfl, rfl⟩)
      fun answer q₁ eq => ?_
    rw [eq.1, eq.2]
    cases described : (p.workspace.store.symbol symbol).description with
    | none =>
      cases converts with
      | known declared =>
        rw [prepared.fits.sound.declarationOf?_eq, prepared.nodeOf?, unbound] at declared
        cases declared
      | undescribed _ _ rest =>
        cases rest
        exact meets_pure (.undescribed proper unknown creates known opens described (quiet_report ..))
      | fresh _ described' =>
        rw [same, described] at described'
        cases described'
    | some d =>
      refine meets_bind (P := fun _ q₂ => Quiet w₁ q₂.workspace ∧ q₂.report = q.report ∧ q₂.internal = q.internal)
        (meets_log fun w quiet => ⟨quiet, rfl, rfl⟩) fun _ q₂ ⟨quiet, report, internal⟩ => ?_
      refine meets_modify ?_
      rw [report, internal]
      exact .synthesized proper unknown creates known opens described converts quiet

theorem link_meets (h : Fits g job p) (proper : (p.workspace.store.symbol symbol).isDefaultExport = false)
    (known : p.workspace.namesake? symbol = some id) (R : Error → Progress → Prop) :
    Meets (job.link symbol id) p (fun _ q => Resolves job p symbol q) R := by
  unfold Job.link
  refine meets_bind (P := fun q q' => q = p ∧ q' = p) (meets_get ⟨rfl, rfl⟩) fun q q' eq => ?_
  rw [eq.1, eq.2]
  have asked : job.owner? p.workspace.store id = .ok (job.modules.find? fun m => Job.holds p.workspace.store m id) :=
    ownerAmong_eq h.sound.layout.strays h.containers id
  simp only [asked]
  cases found : job.modules.find? fun m => Job.holds p.workspace.store m id with
  | none =>
    refine meets_bind (P := fun _ q => Quiet p.workspace q.workspace ∧ q.report = p.report ∧ q.internal = p.internal)
      (meets_log fun w quiet => ⟨quiet, rfl, rfl⟩) fun _ q ⟨quiet, report, internal⟩ => ?_
    refine meets_modify ?_
    rw [report, internal]
    refine .dropped proper known ?_ quiet
    rintro ⟨m, mem, holds⟩
    exact List.find?_eq_none.1 found m mem holds
  | some holder =>
    refine meets_bind (P := fun _ q => q = { p with workspace := p.workspace.register job.module id (some symbol) })
      (meets_modify rfl) fun _ q eq => ?_
    rw [eq]
    refine meets_bind (P := fun _ q => Quiet (p.workspace.register job.module id (some symbol)) q.workspace ∧
      q.report = p.report ∧ q.internal = p.internal) (meets_log fun w quiet => ⟨quiet, rfl, rfl⟩)
      fun _ q ⟨quiet, report, internal⟩ => ?_
    refine meets_modify ?_
    rw [report, internal]
    have holds := List.find?_some found
    exact .aliased proper known ⟨holder, List.mem_of_find?_eq_some found, holds⟩ quiet

/-- What becomes of an undocumented symbol: one of the cases of `Resolves`, or the module breaks
off at it. -/
theorem resolveSymbol_meets (h : Fits g job p) (named : symbol < g.top)
    (unbound : p.workspace.nodeOf? symbol = none) :
    Meets (job.resolveSymbol symbol) p (fun _ q => Resolves job p symbol q)
      (Breaks job p symbol) := by
  unfold Job.resolveSymbol
  refine meets_bind (P := fun q q' => q = p ∧ q' = p) (meets_get ⟨rfl, rfl⟩) fun q q' eq => ?_
  rw [eq.1, eq.2]
  cases proper : (p.workspace.store.symbol symbol).isDefaultExport with
  | true =>
    simp only [proper, if_true]
    exact meets_modify (.skipped proper)
  | false =>
    simp only [proper, Bool.false_eq_true, if_false, nodeNamed_eq h.sound named]
    cases known : p.workspace.namesake? symbol with
    | some id => exact link_meets h proper known _
    | none =>
      cases creates : job.policy.linkOnly with
      | true =>
        simp only [if_true]
        exact meets_modify (.unresolved proper known creates)
      | false =>
        simp only [Bool.false_eq_true, if_false]
        exact synthesize_meets h named unbound proper known creates

/-! ## What a step keeps -/

/-- The namespace stays at hand. -/
theorem Resolves.internal (resolves : Resolves job p symbol q) (here : p.internal = some id) : q.internal = some id := by
  have kept : ∀ {id' q}, Opens job p id' q → q.internal = some id := by
    intro id' q opens
    cases opens with
    | «open» => exact here
    | created fresh =>
      rw [here] at fresh
      cases fresh
  cases resolves with
  | undescribed _ _ _ _ opens => exact (kept opens :)
  | synthesized _ _ _ _ opens => exact (kept opens :)
  | _ => exact here

/-- A symbol keeps its node. -/
theorem Resolves.bound (resolves : Resolves job p symbol q) (h : Fits g job p) (named : symbol < g.top)
    (unbound : p.workspace.nodeOf? symbol = none) {symbol' : SymbolId}
    (bound : p.workspace.nodeOf? symbol' = some id) : q.workspace.nodeOf? symbol' = some id := by
  cases resolves with
  | skipped => exact bound
  | dropped _ _ _ quiet => exact (quiet.nodeOf? _).trans bound
  | aliased _ _ _ quiet =>
    refine (quiet.nodeOf? _).trans ((nodeOf?_register h.sound.consistent ..).trans ?_)
    rw [if_neg, bound]
    intro same
    cases same
    rw [unbound] at bound
    cases bound
  | unresolved => exact bound
  | undescribed _ _ _ _ opens _ quiet =>
    exact (quiet.nodeOf? _).trans (((opens.prepared h).nodeOf? _).trans bound)
  | synthesized _ _ _ _ opens _ converts quiet =>
    have prepared := opens.prepared h
    refine (quiet.nodeOf? _).trans ((converts.spec (prepared.hosts named)).ext.bound ?_)
    exact (prepared.nodeOf? _).trans bound

/-- Nodes keep their names and their kinds. -/
theorem Resolves.label (resolves : Resolves job p symbol q) (h : Fits g job p) (named : symbol < g.top)
    (inside : id < p.workspace.store.nodes.size) :
    id < q.workspace.store.nodes.size ∧ (q.workspace.store.node id).name = (p.workspace.store.node id).name ∧
      (q.workspace.store.node id).kind = (p.workspace.store.node id).kind := by
  have opened : ∀ {id' q}, Opens job p id' q → id < q.workspace.store.nodes.size ∧
      (q.workspace.store.node id).name = (p.workspace.store.node id).name ∧
        (q.workspace.store.node id).kind = (p.workspace.store.node id).kind := by
    intro id' q opens
    have prepared := opens.prepared h
    obtain ⟨ids, eq⟩ := prepared.node inside
    rw [eq]
    exact ⟨Nat.lt_of_lt_of_le inside prepared.size_le, rfl, rfl⟩
  cases resolves with
  | skipped => exact ⟨inside, rfl, rfl⟩
  | dropped _ _ _ quiet =>
    rw [quiet.store]
    exact ⟨inside, rfl, rfl⟩
  | aliased _ _ _ quiet =>
    rw [quiet.store, node_register, nodes_register]
    exact ⟨inside, rfl, rfl⟩
  | unresolved => exact ⟨inside, rfl, rfl⟩
  | undescribed _ _ _ _ opens _ quiet =>
    rw [quiet.store]
    exact opened opens
  | @synthesized id' q d w₁ w _ _ _ _ opens _ converts quiet =>
    have prepared := opens.prepared h
    obtain ⟨inside', name, kind⟩ := opened opens
    have ext := (converts.spec (prepared.hosts named)).ext
    obtain ⟨ids, _, widened⟩ := ext.widened
    rw [quiet.store]
    refine ⟨Nat.lt_of_lt_of_le inside' ext.size, ?_⟩
    by_cases here : id = id'
    · subst here
      rw [widened]
      exact ⟨name, kind⟩
    · rw [ext.same inside' here]
      exact ⟨name, kind⟩

end DocTree
