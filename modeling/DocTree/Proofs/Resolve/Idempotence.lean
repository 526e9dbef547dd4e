import DocTree.Proofs.Resolve.Fixpoint

/-!
# A second pass

* `Still w w'` : the tree, its index and the bindings are the same;
* `Spared policy modules w symbol` : a pass that meets the symbol in `w` leaves it alone;
* `Course.idles`, `Course.spared` : a run changes nothing if all it tries is spared; where no program is
  known it cannot end otherwise;
* `idempotent_iff` : a second pass changes nothing if and only if all symbols that the first one has left
  missing are spared;
* `idempotent_of_avoids` : this is so if every symbol can be described, and the name of the namespaces is
  no part of a name.
-/

namespace DocTree

open Workspace

/-- The tree, its index and the bindings are the same. -/
structure Still (w w' : Workspace) : Prop where
  store : w'.store = w.store
  project : w'.project = w.project
  bindings : w'.bindings = w.bindings

/-- A pass that meets the symbol leaves it alone: it is a default export, or no module holds the node of
its name, or there is none and none may be created. -/
inductive Spared (policy : Policy) (modules : List NodeId) (w : Workspace) (symbol : SymbolId) : Prop
  | default : (w.store.symbol symbol).isDefaultExport = true → Spared policy modules w symbol
  | unheld {id : NodeId} : w.namesake? symbol = some id → ¬HeldBy modules w.store id → Spared policy modules w symbol
  | unknown : w.namesake? symbol = none → policy.linkOnly = true → Spared policy modules w symbol

variable {g : Ground} {policy : Policy} {known : OrdMap NodeId Value} {modules rest before : List NodeId}
  {w w₁ w₂ w' u : Workspace} {symbol : SymbolId} {id m : NodeId} {job : Job} {start p q r : Progress}
  {tried pending : List SymbolId} {rs : Report}

theorem Still.refl (w : Workspace) : Still w w := ⟨rfl, rfl, rfl⟩

theorem Still.trans (h : Still w w₁) (h' : Still w₁ w₂) : Still w w₂ :=
  ⟨h'.store.trans h.store, h'.project.trans h.project, h'.bindings.trans h.bindings⟩

theorem Still.quiet (q : Quiet w w') : Still w w' := ⟨q.store, q.project, q.bindings⟩

theorem Still.namesake? (h : Still w w') (symbol : SymbolId) : w'.namesake? symbol = w.namesake? symbol := by
  unfold Workspace.namesake?
  rw [h.store, h.project]

/-- What is spared is spared as long as nothing changes. -/
theorem Still.spared_iff (h : Still w w') : Spared policy modules w' symbol ↔ Spared policy modules w symbol := by
  constructor
  · rintro (isDefault | ⟨found, unheld⟩ | ⟨unknown, linkOnly⟩)
    · exact .default (h.store ▸ isDefault)
    · exact .unheld ((h.namesake? symbol).symm.trans found) (h.store ▸ unheld)
    · exact .unknown ((h.namesake? symbol).symm.trans unknown) linkOnly
  · rintro (isDefault | ⟨found, unheld⟩ | ⟨unknown, linkOnly⟩)
    · exact .default (h.store.symm ▸ isDefault)
    · exact .unheld ((h.namesake? symbol).trans found) (h.store.symm ▸ unheld)
    · exact .unknown ((h.namesake? symbol).trans unknown) linkOnly

theorem Spared.not_created (h : Spared policy modules w symbol)
    (proper : (w.store.symbol symbol).isDefaultExport = false) (unknown : w.namesake? symbol = none)
    (creates : policy.linkOnly = false) : False := by
  cases h with
  | default isDefault =>
    rw [proper] at isDefault
    cases isDefault
  | unheld found =>
    rw [unknown] at found
    cases found
  | unknown _ linkOnly =>
    rw [creates] at linkOnly
    cases linkOnly

/-! ## Runs -/

/-- At most the lists of what was left alone have become longer. -/
structure Idles (p q : Progress) : Prop where
  still : Still p.workspace q.workspace
  internal : q.internal = p.internal
  aliased : q.report.aliased = p.report.aliased
  synthesized : q.report.synthesized = p.report.synthesized

theorem Idles.trans (h : Idles p q) (h' : Idles q r) : Idles p r :=
  ⟨h.still.trans h'.still, h'.internal.trans h.internal, h'.aliased.trans h.aliased,
    h'.synthesized.trans h.synthesized⟩

/-- A step with a symbol that is spared changes nothing. -/
theorem Resolves.idles (resolves : Resolves job p symbol q) (spared : Spared job.policy job.modules p.workspace symbol) :
    Idles p q := by
  cases resolves with
  | skipped => exact ⟨.refl _, rfl, rfl, rfl⟩
  | dropped _ _ _ quiet => exact ⟨.quiet quiet, rfl, rfl, rfl⟩
  | unresolved => exact ⟨.refl _, rfl, rfl, rfl⟩
  | aliased proper found held =>
    cases spared with
    | default isDefault =>
      rw [proper] at isDefault
      cases isDefault
    | unheld found' unheld =>
      cases found.symm.trans found'
      exact absurd held unheld
    | unknown unknown =>
      rw [found] at unknown
      cases unknown
  | undescribed proper unknown creates => exact (spared.not_created proper unknown creates).elim
  | synthesized proper unknown creates => exact (spared.not_created proper unknown creates).elim

/-- Where no program is known, a step that aliases nothing was one with a symbol that is spared. -/
theorem Resolves.spared (resolves : Resolves job p symbol q) (unknown : job.program = none)
    (same : q.report.aliased = p.report.aliased) : Spared job.policy job.modules p.workspace symbol := by
  cases resolves with
  | skipped isDefault => exact .default isDefault
  | dropped _ found unheld => exact .unheld found unheld
  | unresolved _ none linkOnly => exact .unknown none linkOnly
  | aliased => exact absurd same (by simp)
  | undescribed _ _ _ known =>
    rw [unknown] at known
    cases known
  | synthesized _ _ _ known =>
    rw [unknown] at known
    cases known

/-- A run that tried only what is spared has changed nothing. -/
theorem Course.idles (course : Course job start tried pending p)
    (spared : ∀ symbol ∈ tried, Spared job.policy job.modules start.workspace symbol) : Idles start p := by
  induction course with
  | start => exact ⟨.refl _, rfl, rfl, rfl⟩
  | again _ _ _ ih => exact (ih spared).trans ⟨.refl _, rfl, rfl, rfl⟩
  | @step tried rest symbol p q _ resolves ih =>
    have first := ih fun symbol mem => spared symbol (List.mem_append_left _ mem)
    have here := spared symbol (List.mem_append_right _ (List.mem_singleton_self _))
    exact first.trans (resolves.idles (first.still.spared_iff.2 here))

/-- Where no program is known, a run that aliased nothing has tried only what is spared. -/
theorem Course.spared (h : Fits g job start) (fresh : start.internal = none) (unknown : job.program = none)
    (course : Course job start tried pending p) (none : p.report.aliased = []) :
    ∀ symbol ∈ tried, Spared job.policy job.modules start.workspace symbol := by
  induction course with
  | start => exact List.forall_mem_nil _
  | again _ _ _ ih => exact ih none
  | @step tried rest symbol p q course resolves ih =>
    have fits := (course.underway h fresh).1.fits
    have before : p.report.aliased = [] := List.eq_nil_iff_forall_not_mem.2 fun pair mem => by
      have later := (resolves.reports fits).1 mem
      rw [none] at later
      cases later
    have spared := ih before
    intro symbol' mem
    rcases List.mem_append.1 mem with mem | mem
    · exact spared symbol' mem
    · rw [List.mem_singleton.1 mem]
      exact (course.idles spared).still.spared_iff.1 (resolves.spared unknown (none.trans before.symm))

/-- If all that is missing is spared, a run tries nothing else. -/
theorem Course.missing_of_spared (fresh : start.internal = none) (course : Course job start tried pending p)
    (spared : ∀ symbol ∈ start.workspace.store.missing job.module, Spared job.policy job.modules start.workspace symbol) :
    ∀ symbol ∈ tried ++ pending, symbol ∈ start.workspace.store.missing job.module := by
  induction course with
  | start => exact fun symbol mem => mem
  | @again tried next p course eq more ih =>
    rw [List.append_nil] at ih
    have idles := course.idles fun symbol mem => spared symbol (ih symbol mem)
    unfold Job.untried at eq
    rw [idles.internal.trans fresh] at eq
    cases eq
    exact absurd rfl more
  | step _ _ ih =>
    intro symbol mem
    rw [List.append_assoc] at mem
    exact ih symbol mem

theorem not_halts_of_spared (fresh : start.internal = none) (spared : ∀ symbol ∈
    start.workspace.store.missing job.module, Spared job.policy job.modules start.workspace symbol) :
    ¬Halts job start := by
  rintro ⟨tried, symbol, rest, p, course, stuck⟩
  have missing := course.missing_of_spared fresh spared
  have idles := course.idles fun symbol mem => spared symbol (missing symbol (List.mem_append_left _ mem))
  have here := spared symbol (missing symbol (List.mem_append_right _ List.mem_cons_self))
  exact (idles.still.spared_iff.2 here).not_created stuck.proper stuck.unknown stuck.creates

/-! ## Turns -/

variable {report : ModuleReport}

/-- A module in which only spared symbols are missing stays as it is. -/
theorem Turn.idles (turn : Turn job w report w')
    (spared : ∀ symbol ∈ w.store.missing job.module, Spared job.policy job.modules w symbol) :
    Still w w' ∧ report.changed = false := by
  obtain @⟨u, p, q, quiet, course, _, settles⟩ := turn
  have spared' : ∀ symbol ∈ u.store.missing job.module, Spared job.policy job.modules u symbol := fun symbol mem =>
    (Still.quiet quiet).spared_iff.2 (spared symbol (quiet.store ▸ mem))
  have idles := course.idles fun symbol mem =>
    spared' symbol (course.missing_of_spared rfl spared' symbol (List.mem_append_left _ mem))
  have bare : p.internal = none := idles.internal
  cases settles with
  | bare =>
    have still : Still w p.workspace := (Still.quiet quiet).trans idles.still
    refine ⟨⟨still.store, still.project, still.bindings⟩, ?_⟩
    unfold ModuleReport.changed
    rw [idles.aliased, idles.synthesized]
    rfl
  | kept internal =>
    rw [bare] at internal
    cases internal
  | pruned internal =>
    rw [bare] at internal
    cases internal

/-- In a module that stays as it is, only spared symbols are missing, if no program is known. -/
theorem Turn.spared (turn : Turn job w report w') (h : Fits g job (job.begin w)) (unknown : job.program = none)
    (same : report.changed = false) :
    ∀ symbol ∈ w.store.missing job.module, Spared job.policy job.modules w symbol := by
  obtain @⟨u, p, q, quiet, course, _, settles⟩ := turn
  have none : p.report.aliased = [] := by
    have same : (p.report.aliased.isEmpty && p.report.synthesized.isEmpty) = true := by
      unfold ModuleReport.changed at same
      cases settles <;> simpa using same
    exact List.isEmpty_iff.1 (Bool.and_elim_left same)
  intro symbol mem
  have covered := course.covers symbol (by rw [show (job.begin u).workspace.store = w.store from quiet.store]; exact mem)
  rw [List.append_nil] at covered
  exact (Still.quiet quiet).spared_iff.1 (course.spared (h.quiet quiet) rfl unknown none symbol covered)

theorem Passes.idles (passes : Passes known policy modules rest w rs w')
    (spared : ∀ m ∈ rest, ∀ symbol ∈ w.store.missing m, Spared policy modules w symbol) :
    Still w w' ∧ Report.changed rs = false := by
  induction passes with
  | nil => exact ⟨.refl _, rfl⟩
  | clean _ _ ih => exact ih fun m mem => spared m (List.mem_cons_of_mem _ mem)
  | @turn m rest w w₁ w' report rs _ turn _ ih =>
    obtain ⟨still, same⟩ := turn.idles (spared m List.mem_cons_self)
    obtain ⟨still', same'⟩ := ih fun m mem symbol missing =>
      still.spared_iff.2 (spared m (List.mem_cons_of_mem _ mem) symbol (still.store ▸ missing))
    refine ⟨still.trans still', ?_⟩
    unfold Report.changed
    rw [List.any_cons, same]
    exact same'

theorem Passes.spared (base : Ahead g modules w) (passes : Passes known policy modules rest w rs w')
    (sub : ∀ m ∈ rest, m ∈ modules) (unknown : ∀ m, known.find? m = none) (same : Report.changed rs = false) :
    ∀ m ∈ rest, ∀ symbol ∈ w.store.missing m, Spared policy modules w symbol := by
  induction passes with
  | nil => exact List.forall_mem_nil _
  | @clean m rest w w' rs none _ ih =>
    intro m' mem symbol missing
    rcases List.mem_cons.1 mem with rfl | mem
    · rw [none] at missing
      cases missing
    · exact ih base (fun m mem => sub m (List.mem_cons_of_mem _ mem)) same m' mem symbol missing
  | @turn m rest w w₁ w' report rs _ turn _ ih =>
    have fits := base.fits ⟨m, modules, known.find? m, policy⟩ rfl (sub m List.mem_cons_self)
    unfold Report.changed at same
    rw [List.any_cons, Bool.or_eq_false_iff] at same
    have first := turn.spared fits (unknown m) same.1
    have still := (turn.idles first).1
    have later := ih (base.passed (turn.passed fits)) (fun m mem => sub m (List.mem_cons_of_mem _ mem)) same.2
    intro m' mem symbol missing
    rcases List.mem_cons.1 mem with rfl | mem
    · exact first symbol missing
    · exact still.spared_iff.1 (later m' mem symbol (still.store.symm ▸ missing))

theorem not_stops_of_spared (spared : ∀ m ∈ rest, ∀ symbol ∈ w.store.missing m, Spared policy modules w symbol) :
    ¬Stops known policy modules rest w := by
  rintro ⟨before, m, after, rs, u, rfl, passes, _, v, quiet, halts⟩
  have still := (passes.idles fun m mem => spared m (List.mem_append_left _ mem)).1.trans (.quiet quiet)
  refine not_halts_of_spared rfl (fun symbol missing => ?_) halts
  have missing : symbol ∈ w.store.missing m := still.store ▸ missing
  exact still.spared_iff.2 (spared m (List.mem_append_right _ List.mem_cons_self) symbol missing)

/-! ## The second pass -/

theorem policy_congr (settings : w'.settings = w.settings) : w'.policy = w.policy := by
  unfold Workspace.policy
  rw [settings]

/-- A pass ends well and changes nothing. -/
def HasNoEffect (w : Workspace) : Prop :=
  ∃ rs w', w.resolve = (.ok (some rs), w') ∧ Report.changed rs = false ∧ Still w w'

/-- A second pass has no effect if and only if all that the first one has left missing is spared. -/
theorem idempotent_iff {document : Value} (opened : w.Opened document) (ask : w.policy = .ok policy)
    (ok : w.resolve = (.ok (some rs), w')) :
    HasNoEffect w' ↔ ∀ m ∈ w'.modules, ∀ symbol ∈ w'.store.missing m, Spared policy w'.modules w' symbol := by
  obtain ⟨g, ready⟩ := opened.ready
  have resolution := resolution_of_ok ready.sound ask ok
  have passed := resolution.passed ready.sound
  obtain ⟨_, _, _, _, _, cleared⟩ := resolution.turns ready.sound
  have ask' : w'.policy = .ok policy := (policy_congr passed.settings).trans ask
  constructor
  · rintro ⟨rs', w₂, ok', same, _⟩
    obtain ⟨v, u, quiet, ahead, passes, _⟩ := (resolution_of_ok passed.sound ask' ok').turns passed.sound
    have spared := passes.spared ahead (fun m mem => mem) (fun m => by rw [cleared.known]; rfl) same
    intro m here symbol missing
    exact (Still.quiet quiet).spared_iff.1 (spared m here symbol (quiet.store.symm ▸ missing))
  · intro spared
    have spared' : ∀ {v}, Quiet w' v → ∀ m ∈ w'.modules, ∀ symbol ∈ v.store.missing m,
        Spared policy w'.modules v symbol := fun quiet m here symbol missing =>
      (Still.quiet quiet).spared_iff.2 (spared m here symbol (quiet.store ▸ missing))
    rcases resolve_cases passed.sound ask' with ⟨rs', w₂, ok', resolution'⟩ | ⟨_, _, _, v, quiet, stops⟩
    · obtain ⟨v, u, quiet, _, passes, cleared'⟩ := resolution'.turns passed.sound
      obtain ⟨still, same⟩ := passes.idles (spared' quiet)
      have still := (Still.quiet quiet).trans still
      exact ⟨rs', w₂, ok', same, still.trans ⟨cleared'.store, cleared'.project, cleared'.bindings⟩⟩
    · exact absurd stops (not_stops_of_spared (spared' quiet))

theorem idempotent_iff_leftover : ∃ rs, besideLeftover.resolve = (.ok (some rs), besideLeftover.resolve.2) ∧
    (HasNoEffect besideLeftover.resolve.2 ↔ ∀ m ∈ besideLeftover.resolve.2.modules,
      ∀ symbol ∈ besideLeftover.resolve.2.store.missing m,
        Spared ⟨.str "internal", false⟩ besideLeftover.resolve.2.modules besideLeftover.resolve.2 symbol) := by
  obtain ⟨rs, ok⟩ := resolve_leftover
  exact ⟨rs, ok, idempotent_iff opened_leftover policy_leftover ok⟩

/-- Not every second pass is without effect: the one over this document fails. -/
theorem not_idempotent_leftover : ¬∀ (document : Value) (w w' : Workspace) (rs : Report), w.Opened document →
    w.resolve = (.ok (some rs), w') → HasNoEffect w' := by
  intro all
  obtain ⟨rs, ok⟩ := resolve_leftover
  obtain ⟨rs', w₂, ok', _⟩ := all _ _ _ _ opened_leftover ok
  have fails : besideLeftover.resolve.2.resolve.1.isOk = false := by decide +kernel
  rw [ok'] at fails
  cases fails

/-! ## What the first pass leaves -/

theorem heldBy_iff_of_outgrows (base : Ahead g modules w) {t : Store} {label : Value}
    (grown : w.store.Outgrows t label) (inside : id < w.store.nodes.size) :
    HeldBy modules t id ↔ HeldBy modules w.store id := by
  refine exists_congr fun m => and_congr_right fun here => ?_
  obtain ⟨extra, eq, new⟩ := grown.children (base.inside here)
  have other : id ∉ extra := fun mem => absurd inside (Nat.not_lt_of_le (new id mem).1)
  unfold Job.holds Store.childrenOfKind
  rw [List.contains_iff_mem, List.contains_iff_mem, List.mem_filter, List.mem_filter, eq, List.mem_append,
    Node.isKind, Node.isKind, grown.kind inside]
  exact and_congr_left fun _ => or_iff_left other

theorem spared_iff_of_outgrows (base : Ahead g modules w) (project : w'.project = w.project)
    (symbols : w'.store.symbols = w.store.symbols) {label : Value} (grown : w.store.Outgrows w'.store label)
    (avoids : Avoids g.names label) (named : symbol < g.top) :
    Spared policy modules w' symbol ↔ Spared policy modules w symbol := by
  have found := namesake?_outgrows base.sound project symbols grown avoids named
  have same : w'.store.symbol symbol = w.store.symbol symbol := by rw [Store.symbol, Store.symbol, symbols]
  have held : ∀ {id}, w.namesake? symbol = some id → (HeldBy modules w'.store id ↔ HeldBy modules w.store id) :=
    fun eq => heldBy_iff_of_outgrows base grown (declaration_of_namesake base.sound eq).2.1
  constructor
  · rintro (isDefault | ⟨eq, unheld⟩ | ⟨unknown, linkOnly⟩)
    · exact .default (same ▸ isDefault)
    · exact .unheld (found ▸ eq) (mt (held (found ▸ eq)).2 unheld)
    · exact .unknown (found ▸ unknown) linkOnly
  · rintro (isDefault | ⟨eq, unheld⟩ | ⟨unknown, linkOnly⟩)
    · exact .default (same.symm ▸ isDefault)
    · exact .unheld (found.trans eq) (mt (held eq).1 unheld)
    · exact .unknown (found.trans unknown) linkOnly

/-- A symbol without a node is spared, or there was something to create and it cannot be described. -/
def Left (policy : Policy) (modules : List NodeId) (w : Workspace) (symbol : SymbolId) : Prop :=
  Spared policy modules w symbol ∨ (policy.linkOnly = false ∧ (w.store.symbol symbol).description = none)

/-- A symbol that has no node when its turn is over was left. -/
theorem Resolves.left (resolves : Resolves job p symbol q) (h : Fits g job p) (named : symbol < g.top)
    (unbound : q.workspace.nodeOf? symbol = none) : Left job.policy job.modules p.workspace symbol := by
  cases resolves with
  | skipped isDefault => exact Or.inl (.default isDefault)
  | dropped _ found unheld => exact Or.inl (.unheld found unheld)
  | unresolved _ unknown linkOnly => exact Or.inl (.unknown unknown linkOnly)
  | undescribed _ _ creates _ _ undescribed => exact Or.inr ⟨creates, undescribed⟩
  | aliased _ _ _ quiet =>
    rw [quiet.nodeOf?, nodeOf?_register h.sound.consistent, if_pos rfl] at unbound
    cases unbound
  | synthesized _ _ _ _ opens described converts quiet =>
    have prepared := opens.prepared h
    have some := (converts.spec (prepared.hosts named)).listed (List.mem_singleton_self symbol) (by
      rw [Store.symbol, prepared.symbols, ← Store.symbol, described]
      rfl)
    rw [quiet.nodeOf?] at unbound
    rw [unbound] at some
    cases some

section Label

variable {label : Value}

theorem left_iff_of_outgrows (base : Ahead g modules w) (project : w'.project = w.project)
    (symbols : w'.store.symbols = w.store.symbols) (grown : w.store.Outgrows w'.store label)
    (avoids : Avoids g.names label) (named : symbol < g.top) :
    Left policy modules w' symbol ↔ Left policy modules w symbol := by
  unfold Left
  rw [spared_iff_of_outgrows base project symbols grown avoids named, Store.symbol, Store.symbol, symbols]

/-- In the course of a run every tried symbol without a node was left, also in terms of the state in
which the run began. -/
theorem Course.left (base : Ahead g job.modules start.workspace) (h : Fits g job start) (fresh : start.internal = none)
    (called : job.policy.linkOnly = false → job.policy.namespaceName = label) (avoids : Avoids g.names label)
    (course : Course job start tried pending p) (mem : symbol ∈ tried) (unbound : p.workspace.nodeOf? symbol = none) :
    Left job.policy job.modules start.workspace symbol := by
  induction course with
  | start => cases mem
  | again _ _ _ ih => exact ih mem unbound
  | @step tried rest symbol' p q course resolves ih =>
    have under := (course.underway h fresh).1
    obtain ⟨_, named, free⟩ := course.turn h fresh
    rcases List.mem_append.1 mem with mem | mem
    · refine ih mem (Option.eq_none_iff_forall_ne_some.2 fun id bound => ?_)
      rw [resolves.bound under.fits named free bound] at unbound
      cases unbound
    · rw [List.mem_singleton] at mem
      subst mem
      have left := resolves.left under.fits named unbound
      exact (left_iff_of_outgrows base (under.fits.sound.project.trans h.sound.project.symm) under.symbols
        (under.outgrows label called) avoids named).1 left

/-- What is missing in a module when its turn is over was left. -/
theorem Turn.left (base : Ahead g job.modules w) (turn : Turn job w report w') (h : Fits g job (job.begin w))
    (called : job.policy.linkOnly = false → job.policy.namespaceName = label) (avoids : Avoids g.names label)
    (mem : symbol ∈ w'.store.missing job.module) : Left job.policy job.modules w' symbol := by
  have passed := turn.passed h
  have named := passed.sound.layout.lt_top_of_missing mem
  obtain @⟨u, p, q, quiet, course, done, settles⟩ := turn
  have fits := h.quiet quiet
  have ahead : Ahead g job.modules (job.begin u).workspace := base.passed (Passed.quiet base.sound quiet job.policy)
  obtain ⟨tried, unbound⟩ := course.unbound_of_missing fits rfl done settles
    (fun creates => (called creates).symm ▸ avoids.apart) mem
  have left := course.left ahead fits rfl called avoids tried unbound
  have later := (course.underway fits rfl).1.passed fits.sound settles
  exact (left_iff_of_outgrows ahead (later.sound.project.trans fits.sound.project.symm) later.symbols
    (later.outgrows label called) avoids named).2 left

/-- What is missing in any module after a pass was left. -/
theorem Resolution.left (h : Sound g w) (resolution : Resolution policy w rs w')
    (called : policy.linkOnly = false → policy.namespaceName = label) (avoids : Avoids g.names label)
    (here : m ∈ w'.modules) (mem : symbol ∈ w'.store.missing m) : Left policy w'.modules w' symbol := by
  have passed := resolution.passed h
  have named := passed.sound.layout.lt_top_of_missing mem
  rw [passed.modules_eq h] at here ⊢
  obtain ⟨v, u, quiet, ahead, passes, cleared⟩ := resolution.turns h
  have still : Still u w' := ⟨cleared.store, cleared.project, cleared.bindings⟩
  rw [cleared.store] at mem
  have left : Left policy w.modules u symbol := by
    refine passes.of_missing (P := fun w _ => Left policy _ w symbol) ahead (fun m mem => mem) h.nodup_modules
      here mem (fun base here turn mem => turn.left base (base.fits _ rfl here) called avoids mem)
      fun base passed _ left => ?_
    exact (left_iff_of_outgrows base (passed.sound.project.trans base.sound.project.symm) passed.symbols
      (passed.outgrows label called) avoids named).2 left
  exact left.imp still.spared_iff.2 fun ⟨creates, undescribed⟩ =>
    ⟨creates, still.store.symm ▸ undescribed⟩

end Label

/-- If nothing may be created, a second pass has no effect. -/
theorem idempotent_of_linkOnly {document : Value} (opened : w.Opened document) (ask : w.policy = .ok policy)
    (linkOnly : policy.linkOnly = true) (ok : w.resolve = (.ok (some rs), w')) : HasNoEffect w' := by
  obtain ⟨g, ready⟩ := opened.ready
  refine (idempotent_iff opened ask ok).2 fun m here symbol missing => ?_
  have never : ¬policy.linkOnly = false := by rw [linkOnly]; decide
  have called : policy.linkOnly = false → policy.namespaceName = .null := fun creates => absurd creates never
  have left := (resolution_of_ok ready.sound ask ok).left ready.sound called (fun _ _ _ _ => nofun) here missing
  exact left.resolve_right fun ⟨creates, _⟩ => never creates

/-- If every symbol can be described, and the name of the namespaces is no part of a name, a second
pass has no effect. -/
theorem idempotent_of_avoids {document : Value} (opened : w.Opened document) (ask : w.policy = .ok policy)
    (transparent : Document.Transparent document) (avoids : Avoids (Document.symbolNames document) policy.namespaceName)
    (ok : w.resolve = (.ok (some rs), w')) : HasNoEffect w' := by
  obtain ⟨g, ready⟩ := opened.ready
  have resolution := resolution_of_ok ready.sound ask ok
  refine (idempotent_iff opened ask ok).2 fun m here symbol missing => ?_
  refine (resolution.left ready.sound (fun _ => rfl) (ready.names ▸ avoids) here missing).resolve_right ?_
  rintro ⟨_, none⟩
  have named := (resolution.passed ready.sound).sound.layout.lt_top_of_missing missing
  have described := ready.described transparent named
  rw [Store.symbol, ← (resolution.passed ready.sound).symbols, ← Store.symbol, none] at described
  cases described

end DocTree
