import DocTree.Proofs.Resolve.Pass

/-!
# What is still missing after a pass

* `Excused policy s rs symbol` : the reasons why a symbol may still be missing after a pass with the
  report `rs`;
* `Course.excused` : in the course of a run, every tried symbol has a node or is excused;
* `Course.endsIn` : only symbols of its name are bound to the namespace, so that no others lose their
  nodes with it;
* `Turn.excused` : what is missing in a module when its turn is over is excused;
* `Passed.missing` : nothing becomes missing in a module during the turns of others;
* `missing_of_later` : nothing becomes missing again while later modules are resolved;
* `excused_of_missing` : a pass comes to its end, what is missing then in any module is excused, and nothing has
  become missing again on the way.
-/

namespace DocTree

open Workspace

/-- The reasons why a symbol may still be missing after a pass. -/
inductive Excused (policy : Policy) (s : Store) (rs : Report) (symbol : SymbolId) : Prop
  | default : (s.symbol symbol).isDefaultExport = true → Excused policy s rs symbol
  | undescribed : (s.symbol symbol).description = none → Excused policy s rs symbol
  | dropped {r : ModuleReport} : r ∈ rs → symbol ∈ r.dropped → Excused policy s rs symbol
  | unresolved {r : ModuleReport} : policy.linkOnly = true → r ∈ rs → symbol ∈ r.unresolved →
      Excused policy s rs symbol

variable {g : Ground} {policy : Policy} {known : OrdMap NodeId Value} {modules rest before : List NodeId}
  {w w₁ w' : Workspace} {s t : Store} {symbol : SymbolId} {id m : NodeId} {job : Job} {start p q : Progress}
  {tried pending : List SymbolId} {r : ModuleReport} {rs rs' : Report}

/-- The reasons stay when symbols are kept and reports grow. -/
theorem Excused.mono (h : Excused policy s rs symbol) (symbols : t.symbols = s.symbols)
    (reports : ∀ r ∈ rs, ∃ r' ∈ rs', r.dropped ⊆ r'.dropped ∧ r.unresolved ⊆ r'.unresolved) :
    Excused policy t rs' symbol := by
  have same : t.symbol symbol = s.symbol symbol := by rw [Store.symbol, Store.symbol, symbols]
  cases h with
  | default isDefault => exact .default (same ▸ isDefault)
  | undescribed none => exact .undescribed (same ▸ none)
  | dropped mem listed =>
    obtain ⟨r', mem', dropped, _⟩ := reports _ mem
    exact .dropped mem' (dropped listed)
  | unresolved linkOnly mem listed =>
    obtain ⟨r', mem', _, unresolved⟩ := reports _ mem
    exact .unresolved linkOnly mem' (unresolved listed)

/-! ## Tried symbols -/

/-- What a report lists stays listed. -/
theorem Resolves.reports (resolves : Resolves job p symbol q) (h : Fits g job p) :
    p.report.aliased ⊆ q.report.aliased ∧ p.report.dropped ⊆ q.report.dropped ∧
      p.report.unresolved ⊆ q.report.unresolved := by
  have opened : ∀ {id q}, Opens job p id q → p.report.aliased ⊆ q.report.aliased ∧
      p.report.dropped ⊆ q.report.dropped ∧ p.report.unresolved ⊆ q.report.unresolved := by
    intro id q opens
    rw [(opens.prepared h).report]
    exact ⟨fun _ mem => mem, fun _ mem => mem, fun _ mem => mem⟩
  cases resolves with
  | skipped => exact ⟨fun _ mem => mem, fun _ mem => mem, fun _ mem => mem⟩
  | dropped => exact ⟨fun _ mem => mem, fun _ mem => List.mem_append_left _ mem, fun _ mem => mem⟩
  | aliased => exact ⟨fun _ mem => List.mem_append_left _ mem, fun _ mem => mem, fun _ mem => mem⟩
  | unresolved => exact ⟨fun _ mem => mem, fun _ mem => mem, fun _ mem => List.mem_append_left _ mem⟩
  | undescribed _ _ _ _ opens => exact (opened opens :)
  | synthesized _ _ _ _ opens => exact (opened opens :)

/-- A symbol gets a node when its turn comes, or is excused. -/
theorem Resolves.excused (resolves : Resolves job p symbol q) (h : Fits g job p) (named : symbol < g.top) :
    (q.workspace.nodeOf? symbol).isSome ∨ Excused job.policy q.workspace.store [q.report] symbol := by
  have here : q.report ∈ [q.report] := List.mem_singleton_self _
  cases resolves with
  | skipped isDefault => exact Or.inr (.default isDefault)
  | dropped _ _ _ quiet => exact Or.inr (.dropped here (List.mem_append_right _ (List.mem_singleton_self _)))
  | aliased _ _ _ quiet =>
    left
    rw [quiet.nodeOf?, nodeOf?_register h.sound.consistent, if_pos rfl]
    rfl
  | unresolved _ _ linkOnly =>
    exact Or.inr (.unresolved linkOnly here (List.mem_append_right _ (List.mem_singleton_self _)))
  | undescribed _ _ _ _ opens undescribed quiet =>
    refine Or.inr (.undescribed ?_)
    rw [Store.symbol, quiet.store, (opens.prepared h).symbols]
    exact undescribed
  | synthesized _ _ _ _ opens described converts quiet =>
    left
    have prepared := opens.prepared h
    rw [quiet.nodeOf?]
    refine (converts.spec (prepared.hosts named)).listed (List.mem_singleton_self _) ?_
    rw [Store.symbol, prepared.symbols, ← Store.symbol, described]
    rfl

/-- In the course of a run every tried symbol has a node or is excused. -/
theorem Course.excused (h : Fits g job start) (fresh : start.internal = none)
    (course : Course job start tried pending p) (mem : symbol ∈ tried) :
    (p.workspace.nodeOf? symbol).isSome ∨ Excused job.policy p.workspace.store [p.report] symbol := by
  induction course with
  | start => cases mem
  | @again tried next p _ _ _ ih =>
    refine (ih mem).imp_right fun excused => excused.mono rfl fun r here => ?_
    rw [List.mem_singleton.1 here]
    exact ⟨_, List.mem_singleton_self _, fun _ mem => mem, fun _ mem => mem⟩
  | @step tried rest symbol' p q course resolves ih =>
    have fits := (course.underway h fresh).1.fits
    obtain ⟨_, named, unbound⟩ := course.turn h fresh
    rcases List.mem_append.1 mem with mem | mem
    · refine (ih mem).imp (fun some => ?_) fun excused => ?_
      · obtain ⟨id, bound⟩ := Option.isSome_iff_exists.1 some
        rw [resolves.bound fits named unbound bound]
        rfl
      · have symbols := ((course.step resolves).underway h fresh).1.symbols.trans
          (course.underway h fresh).1.symbols.symm
        refine excused.mono symbols fun r here => ?_
        rw [List.mem_singleton.1 here]
        exact ⟨_, List.mem_singleton_self _, (resolves.reports fits).2⟩
    · rw [List.mem_singleton.1 mem]
      exact resolves.excused fits named

/-- What a step binds to the namespace has a name that ends in the namespace's. -/
theorem Resolves.endsIn {u : Workspace} {symbol' : SymbolId} (resolves : Resolves job p symbol q)
    (under : Underway g job u tried p) (named : symbol < g.top) (internal : q.internal = some id)
    (bound : q.workspace.nodeOf? symbol' = some id) :
    p.internal = some id ∧ p.workspace.nodeOf? symbol' = some id ∨
      EndsIn u.store symbol' job.policy.namespaceName := by
  have opened : ∀ {id' r}, Opens job p id' r → r.internal = some id → p.workspace.nodeOf? symbol' = some id →
      p.internal = some id ∧ p.workspace.nodeOf? symbol' = some id := by
    intro id' r opens internal bound
    cases opens with
    | «open» => exact ⟨internal, bound⟩
    | created =>
      cases internal
      exact absurd (under.fits.sound.bound bound).2.1 (Nat.lt_irrefl _)
  cases resolves with
  | skipped => exact Or.inl ⟨internal, bound⟩
  | dropped _ _ _ quiet => exact Or.inl ⟨internal, (quiet.nodeOf? _).symm.trans bound⟩
  | unresolved => exact Or.inl ⟨internal, bound⟩
  | aliased _ found _ quiet =>
    have target := (nodeOf?_register under.fits.sound.consistent ..).symm.trans
      ((quiet.nodeOf? symbol').symm.trans bound)
    split at target
    · rename_i same
      cases same
      cases target
      obtain ⟨_, _, _, ends⟩ := below_of_namesake under.fits.sound found
      obtain ⟨_, children, eq⟩ := under.internal internal
      rw [eq] at ends
      obtain ⟨name, part, called, rest⟩ := ends
      refine Or.inr ⟨name, part, ?_, rest⟩
      rw [← called, Store.symbol, Store.symbol, under.symbols]
    · exact Or.inl ⟨internal, target⟩
  | undescribed _ _ _ _ opens _ quiet =>
    exact Or.inl (opened opens internal (((opens.prepared under.fits).nodeOf? _).symm.trans
      ((quiet.nodeOf? _).symm.trans bound)))
  | @synthesized id' r d w₁ w _ _ _ _ opens _ converts quiet =>
    have prepared := opens.prepared under.fits
    have ext := (converts.spec (prepared.hosts named)).ext
    have bound : w₁.nodeOf? symbol' = some id := (quiet.nodeOf? _).symm.trans bound
    cases before : r.workspace.nodeOf? symbol' with
    | some id'' =>
      rw [ext.bound before] at bound
      cases bound
      exact Or.inl (opened opens internal ((prepared.nodeOf? _).symm.trans before))
    | none =>
      obtain rfl : id' = id := Option.some.inj (prepared.internal.symm.trans internal)
      exact absurd (prepared.hosts named).inside (Nat.not_lt_of_le (ext.fresh before bound).1)

/-- In the course of a run only symbols whose names end in its name are bound to the namespace. -/
theorem Course.endsIn (h : Fits g job start) (fresh : start.internal = none)
    (course : Course job start tried pending p) (internal : p.internal = some id)
    (bound : p.workspace.nodeOf? symbol = some id) :
    EndsIn start.workspace.store symbol job.policy.namespaceName := by
  induction course with
  | start =>
    have internal : start.internal = some id := internal
    rw [fresh] at internal
    cases internal
  | again _ _ _ ih => exact ih internal bound
  | step course resolves ih =>
    have under := (course.underway h fresh).1
    have named := (course.turn h fresh).2.1
    rcases resolves.endsIn under named internal bound with ⟨internal, bound⟩ | ends
    · exact ih internal bound
    · exact ends

/-! ## When a turn is over -/

/-- What is missing in the module under way was missing before, or is missing in the namespace. -/
theorem Underway.missing (h : Underway g job start.workspace tried p) (sound : Sound g start.workspace)
    (mem : symbol ∈ p.workspace.store.missing job.module) :
    symbol ∈ start.workspace.store.missing job.module ∨
      ∃ scope, p.internal = some scope ∧ symbol ∈ p.workspace.store.missing scope := by
  obtain ⟨⟨id, way, link⟩, none⟩ := h.fits.sound.mem_missing_iff.1 mem
  have container := h.fits.containers _ h.fits.module
  rw [Store.isContainer, h.module, Node.giveChildren_body, Node.isContainer_mapChildren] at container
  -- The way to the reference either was there before or leads through the namespace.
  have ways : start.workspace.store.Reaches job.module id ∨
      ∃ scope, p.internal = some scope ∧ p.workspace.store.Reaches scope id := by
    clear link
    induction way with
    | refl => exact Or.inl (.refl _)
    | @tail x y _ step ih =>
      rcases ih with old | ⟨scope, internal, new⟩
      · have inside := sound.layout.lt_of_reaches old h.module_lt
        by_cases here : x = job.module
        · rw [here, h.module, Node.mem_successors_giveChildren container, Option.mem_toList] at step
          exact step.imp (fun step => .single step) fun internal => ⟨y, internal, .refl y⟩
        · rw [h.same inside here] at step
          exact Or.inl (old.trans (.single step))
      · exact Or.inr ⟨scope, internal, new.trans (.single step)⟩
  rcases ways with old | ⟨scope, internal, new⟩
  · refine Or.inl (sound.mem_missing_iff.2 ⟨⟨id, old, ?_⟩, ?_⟩)
    · by_cases here : id = job.module
      · rw [here, h.module, Node.mem_links_giveChildren container] at link
        exact here ▸ link
      · rwa [h.same (sound.layout.lt_of_reaches old h.module_lt) here] at link
    · exact Option.eq_none_iff_forall_ne_some.2 fun id bound => by
        rw [h.bound bound] at none
        cases none
  · exact Or.inr ⟨scope, internal, h.fits.sound.mem_missing_iff.2 ⟨⟨id, new, link⟩, none⟩⟩

theorem Passed.missing_of_same (h : Passed g policy before w w') (sound : Sound g w)
    (same : ∀ id, w.store.Reaches m id → w'.store.node id = w.store.node id) (mem : symbol ∈ w'.store.missing m) :
    symbol ∈ w.store.missing m := by
  obtain ⟨⟨id, way, link⟩, none⟩ := h.sound.mem_missing_iff.1 mem
  have old := way.of_same same
  refine sound.mem_missing_iff.2 ⟨⟨id, old, same id old ▸ link⟩, ?_⟩
  exact Option.eq_none_iff_forall_ne_some.2 fun id bound => by
    rw [h.bound bound] at none
    cases none

/-- Whatever is missing in a module in the end was tried. -/
theorem Course.tried_of_missing (h : Fits g job start) (fresh : start.internal = none)
    (course : Course job start tried [] p) (done : job.untried tried p = .ok []) (settles : Settles p q)
    (mem : symbol ∈ (q.workspace.activate none).store.missing job.module) : symbol ∈ tried := by
  have under := (course.underway h fresh).1
  have first : symbol ∈ start.workspace.store.missing job.module → symbol ∈ tried := fun mem => by
    have covered := course.covers symbol mem
    rwa [List.append_nil] at covered
  have whole : symbol ∈ p.workspace.store.missing job.module → symbol ∈ tried := fun mem => by
    rcases under.missing h.sound mem with old | ⟨scope, internal, new⟩
    · exact first old
    · by_contra untried
      have creates := under.creates (internal ▸ rfl)
      exact nomatch (mem_untried symbol under.fits.sound done).2.2 ⟨creates, untried, scope, internal, new⟩
  cases settles with
  | bare => exact whole mem
  | kept => exact whole mem
  | @pruned id internal empty =>
    have passed := under.passed h.sound (.pruned internal empty)
    refine first (passed.missing_of_same h.sound (fun id way => ?_) mem)
    exact under.node_pruned h.sound internal empty (h.sound.layout.lt_of_reaches way h.inside)

/-- What is missing in a module in the end was tried, and had no node. -/
theorem Course.unbound_of_missing (h : Fits g job start) (fresh : start.internal = none)
    (course : Course job start tried [] p) (done : job.untried tried p = .ok []) (settles : Settles p q)
    (apart : job.policy.linkOnly = false → Apart g.names job.policy.namespaceName)
    (mem : symbol ∈ (q.workspace.activate none).store.missing job.module) :
    symbol ∈ tried ∧ p.workspace.nodeOf? symbol = none := by
  have under := (course.underway h fresh).1
  have sound := (under.passed h.sound settles).sound
  refine ⟨course.tried_of_missing h fresh done settles mem, ?_⟩
  cases bound : p.workspace.nodeOf? symbol with
  | none => rfl
  | some id =>
    rcases under.settled settles bound with bound | internal
    · have none := sound.unbound_of_missing mem
      rw [show (q.workspace.activate Option.none).nodeOf? symbol = _ from bound] at none
      cases none
    · have ends := course.endsIn h fresh internal bound
      have apart := apart (under.creates (internal ▸ rfl))
      exact absurd ends (h.sound.catalog.not_endsIn apart (sound.layout.lt_top_of_missing mem))

/-- What is missing in a module when its turn is over is excused. -/
theorem Turn.excused (turn : Turn job w r w') (h : Fits g job (job.begin w))
    (apart : job.policy.linkOnly = false → Apart g.names job.policy.namespaceName)
    (mem : symbol ∈ w'.store.missing job.module) : Excused job.policy w'.store [r] symbol := by
  obtain @⟨u, p, q, quiet, course, done, settles⟩ := turn
  have fits := h.quiet quiet
  have under := (course.underway fits rfl).1
  obtain ⟨tried, unbound⟩ := course.unbound_of_missing fits rfl done settles apart mem
  rcases course.excused fits rfl tried with some | excused
  · rw [unbound] at some
    cases some
  · have symbols := (under.passed fits.sound settles).symbols
    refine excused.mono (symbols.trans under.symbols.symm) fun r here => ?_
    rw [List.mem_singleton.1 here]
    refine ⟨_, List.mem_singleton_self _, ?_⟩
    cases settles <;> exact ⟨fun _ mem => mem, fun _ mem => mem⟩

/-! ## When other modules have their turns -/

theorem Passed.same_of_reaches (h : Passed g policy rest w w') (base : Ahead g modules w)
    (sub : ∀ m ∈ rest, m ∈ modules) (here : m ∈ modules) (other : m ∉ rest) (id : NodeId)
    (way : w.store.Reaches m id) : w'.store.node id = w.store.node id := by
  refine h.same (base.sound.layout.lt_of_reaches way (base.inside here)) fun changed => other ?_
  have same : id = m := by
    rcases base.placed with rfl | below
    · exact (List.mem_singleton.1 (sub id changed)).trans (List.mem_singleton.1 here).symm
    · exact base.sound.layout.eq_of_reaches way (below m here) (below id (sub id changed))
  exact same ▸ changed

/-- Nothing becomes missing in a module during the turns of others. -/
theorem Passed.missing (h : Passed g policy rest w w') (base : Ahead g modules w) (sub : ∀ m ∈ rest, m ∈ modules)
    (here : m ∈ modules) (other : m ∉ rest) (mem : symbol ∈ w'.store.missing m) : symbol ∈ w.store.missing m :=
  h.missing_of_same base.sound (h.same_of_reaches base sub here other) mem

/-- What is missing in the modules whose turns are over: if something holds of it when the turn of its
module is over, and later turns keep this, it holds in the end. -/
theorem Passes.of_missing {P : Workspace → Report → Prop} (base : Ahead g modules w)
    (passes : Passes known policy modules rest w rs w') (sub : ∀ m ∈ rest, m ∈ modules) (nodup : rest.Nodup)
    (here : m ∈ rest) (mem : symbol ∈ w'.store.missing m)
    (turned : ∀ {m w r w₁}, Ahead g modules w → m ∈ modules → Turn ⟨m, modules, known.find? m, policy⟩ w r w₁ →
      symbol ∈ w₁.store.missing m → P w₁ [r])
    (later : ∀ {rest w rs rs' w'}, Ahead g modules w → Passed g policy rest w w' → (∀ r ∈ rs, r ∈ rs') → P w rs →
      P w' rs') : P w' rs := by
  induction passes with
  | nil => cases here
  | @clean m' rest w w' rs none passes ih =>
    have sub' : ∀ m ∈ rest, m ∈ modules := fun m mem => sub m (List.mem_cons_of_mem _ mem)
    obtain ⟨other, nodup⟩ := List.nodup_cons.1 nodup
    rcases List.mem_cons.1 here with rfl | here
    · have before := (passes.passed base sub').missing base sub' (sub m List.mem_cons_self) other mem
      rw [none] at before
      cases before
    · exact ih base sub' nodup here mem
  | @turn m' rest w w₁ w' r rs _ turn passes ih =>
    have sub' : ∀ m ∈ rest, m ∈ modules := fun m mem => sub m (List.mem_cons_of_mem _ mem)
    obtain ⟨other, nodup⟩ := List.nodup_cons.1 nodup
    have fits := base.fits ⟨m', modules, known.find? m', policy⟩ rfl (sub m' List.mem_cons_self)
    have ahead := base.passed (turn.passed fits)
    have passed := passes.passed ahead sub'
    rcases List.mem_cons.1 here with rfl | here
    · have before := passed.missing ahead sub' (sub m List.mem_cons_self) other mem
      refine later ahead passed (fun r' here => ?_) (turned base (sub m List.mem_cons_self) turn before)
      exact List.mem_singleton.1 here ▸ List.mem_cons_self
    · have ahead' := ahead.passed passed
      exact later ahead' (.refl ahead'.sound policy []) (fun r' => List.mem_cons_of_mem _) (ih ahead sub' nodup here mem)

/-! ## Whole passes -/

theorem Passed.modules_eq (h : Passed g policy before w w') (sound : Sound g w) : w'.modules = w.modules := by
  have same := Store.modules_outgrows sound.layout (h.outgrows policy.namespaceName fun _ => rfl)
  unfold Workspace.modules
  rw [h.sound.project, sound.project, same]

theorem Modular.childrenOfKind_eq (h : Modular g w) :
    w.store.childrenOfKind g.project .module = w.store.children g.project := by
  refine List.filter_eq_self.2 fun m mem => ?_
  obtain ⟨name, children, eq, _⟩ := h m mem
  rw [eq]
  show Kind.module.meets Kind.module = true
  decide

theorem Modular.modules_cases (h : Modular g w) (sound : Sound g w) :
    w.store.children g.project = [] ∧ w.modules = [g.project] ∨
      w.store.children g.project ≠ [] ∧ w.modules = w.store.children g.project := by
  unfold Workspace.modules
  rw [sound.project, h.childrenOfKind_eq]
  split
  · rename_i bare
    exact Or.inl ⟨bare, rfl⟩
  · rename_i some
    exact Or.inr ⟨some, rfl⟩

theorem Modular.parts_eq (h : Modular g w) (sound : Sound g w) (here : m ∈ w.modules) (unknown : w.known.find? m = none) :
    (w.store.node m).parts = [] := by
  rcases h.modules_cases sound with ⟨bare, modules⟩ | ⟨_, modules⟩ <;> rw [modules] at here
  · obtain ⟨children, project⟩ := sound.layout.project
    rw [Store.children, project] at bare
    rw [List.mem_singleton.1 here, Node.parts, project, show children = [] from bare]
    rfl
  · obtain ⟨name, children, eq, known⟩ := h m here
    have bare : children = [] := by
      by_contra some
      have known := known some
      rw [unknown] at known
      cases known
    rw [eq, bare]
    rfl

theorem missing_of_parts_eq (parts : (s.node m).parts = []) : s.missing m = [] := by
  refine List.eq_nil_iff_forall_not_mem.2 fun symbol mem => ?_
  obtain ⟨id, way, link, here, _⟩ := (s.mem_missing_iff m symbol).1 mem
  have only : id = m := by
    rcases Relation.ReflTransGen.cases_head way with eq | ⟨x, step, _⟩
    · exact eq.symm
    · rw [Node.successors, parts] at step
      cases step
  rw [only, Node.links, parts] at here
  cases here

/-- A module that misses something when its turn comes is known to come from a program. -/
theorem Modular.known_of_missing (h : Modular g w) (sound : Sound g w) {u v : Workspace} (quiet : Quiet w v)
    {after : List NodeId} (eq : w.modules = before ++ m :: after)
    (passes : Passes w.known policy w.modules before v rs u) (missing : u.store.missing m ≠ []) :
    (w.known.find? m).isSome := by
  have nodup := sound.nodup_modules
  have ahead := sound.ahead_of_quiet quiet
  have here : m ∈ w.modules := eq ▸ List.mem_append_right _ List.mem_cons_self
  have sub : ∀ m ∈ before, m ∈ w.modules := fun m mem => eq ▸ List.mem_append_left _ mem
  have other : m ∉ before := fun mem => by
    rw [eq] at nodup
    exact (List.nodup_append.1 nodup).2.2 m mem m List.mem_cons_self rfl
  cases known : w.known.find? m with
  | some _ => rfl
  | none =>
    have none : v.store.missing m = [] := quiet.store.symm ▸ missing_of_parts_eq (h.parts_eq sound here known)
    refine absurd (List.eq_nil_iff_forall_not_mem.2 fun symbol mem => ?_) missing
    have mem := (passes.passed ahead sub).missing ahead sub here other mem
    rw [none] at mem
    cases mem

/-- If everything hangs below modules that come from programs, no pass stops. -/
theorem Modular.not_stops (h : Modular g w) (sound : Sound g w) {v : Workspace} (quiet : Quiet w v) :
    ¬Stops w.known policy w.modules w.modules v := by
  rintro ⟨before, m, after, rs, u, eq, passes, missing, v', _, tried, symbol, rest, p, _, stuck⟩
  have known := h.known_of_missing sound quiet eq passes missing
  rw [show w.known.find? m = none from stuck.program] at known
  cases known

/-- What is missing in any module after a pass is excused. -/
theorem Resolution.excused (h : Sound g w) (resolution : Resolution policy w rs w')
    (apart : policy.linkOnly = false → Apart g.names policy.namespaceName) (here : m ∈ w'.modules)
    (mem : symbol ∈ w'.store.missing m) : Excused policy w'.store rs symbol := by
  rw [(resolution.passed h).modules_eq h] at here
  obtain ⟨v, u, quiet, ahead, passes, cleared⟩ := resolution.turns h
  rw [cleared.store] at mem ⊢
  refine passes.of_missing (P := fun w rs => Excused policy w.store rs symbol) ahead (fun m mem => mem) h.nodup_modules
    here mem (fun base here turn mem => turn.excused (base.fits _ rfl here) apart mem) fun _ passed sub excused => ?_
  exact excused.mono passed.symbols fun r here => ⟨r, sub r here, fun _ mem => mem, fun _ mem => mem⟩

/-- Nothing becomes missing again in the modules that were resolved while later ones are. -/
theorem missing_of_later (base : Ahead g modules w) (nodup : modules.Nodup) {later after : List NodeId}
    (eq : modules = before ++ (later ++ after)) (ok : resolveModules known policy modules modules w = (.ok rs, w')) :
    ∃ rs₁ u rs₂ v, resolveModules known policy modules before w = (.ok rs₁, u) ∧
      resolveModules known policy modules later u = (.ok rs₂, v) ∧
      ∀ m ∈ before, ∀ symbol ∈ v.store.missing m, symbol ∈ u.store.missing m := by
  obtain ⟨rs₁, _, u, _, first, others⟩ := exists_of_resolveModules_append eq ok
  obtain ⟨rs₂, _, v, _, next, _⟩ := exists_of_resolveModules_append rfl others
  have sub : ∀ m ∈ before, m ∈ modules := fun m mem => eq ▸ List.mem_append_left _ mem
  have sub' : ∀ m ∈ later, m ∈ modules := fun m mem =>
    eq ▸ List.mem_append_right _ (List.mem_append_left _ mem)
  have ahead := base.passed ((passes_of_ok base sub first).passed base sub)
  have passed := (passes_of_ok ahead sub' next).passed ahead sub'
  refine ⟨rs₁, u, rs₂, v, first, next, fun m here symbol mem => ?_⟩
  refine passed.missing ahead sub' (sub m here) (fun again => ?_) mem
  rw [eq] at nodup
  exact (List.nodup_append.1 nodup).2.2 m here m (List.mem_append_left _ again) rfl

/-- A pass over the modules of a document comes to its end, and whatever is missing then in any module
is excused, provided that the name of no symbol ends in the name of the namespaces. While later modules
are resolved, nothing becomes missing again in those that were resolved before. -/
theorem excused_of_missing {document : Value} (opened : w.Opened document) (modular : Document.HasModules document)
    (ask : w.policy = .ok policy) (apart : Apart (Document.symbolNames document) policy.namespaceName) :
    ∃ rs w', w.resolve = (.ok (some rs), w') ∧
      (∀ m ∈ w'.modules, ∀ symbol ∈ w'.store.missing m, Excused policy w'.store rs symbol) ∧
      ∀ before later after, w.modules = before ++ (later ++ after) → ∃ rs₁ u rs₂ v,
        resolveModules w.known policy w.modules before w.opening = (.ok rs₁, u) ∧
        resolveModules w.known policy w.modules later u = (.ok rs₂, v) ∧
        ∀ m ∈ before, ∀ symbol ∈ v.store.missing m, symbol ∈ u.store.missing m := by
  obtain ⟨g, ready⟩ := opened.ready
  rcases resolve_cases ready.sound ask with ⟨rs, w', eq, resolution⟩ | ⟨_, _, _, v, quiet, stops⟩
  · refine ⟨rs, w', eq, fun m here symbol mem => ?_, fun before later after parts => ?_⟩
    · exact resolution.excused ready.sound (fun _ => ready.names ▸ apart) here mem
    · obtain ⟨_, went, _⟩ := exists_of_resolve ready.sound ask eq
      exact missing_of_later (ready.sound.ahead_of_quiet (quiet_opening w)) ready.sound.nodup_modules parts went
  · exact absurd stops ((ready.modular modular).not_stops ready.sound quiet)

/-- A document in which a function refers to a symbol that cannot be described, and to one that can. -/
def leftover : Value := .object [
  ("programs", .object [("main", .object [("symbols", .object [
    ("f", .object [("kind", .str "function"), ("signatures", .list [.object [
      ("parameters", .object [("o", .str "Hidden"), ("p", .str "Shown")]), ("returns", .str "void")]])]),
    ("Hidden", .object [("kind", .str "interface"), ("opaque", .bool true)]),
    ("Shown", .object [("kind", .str "interface")])])])]),
  ("modules", .list [.object [("name", .str "a"), ("program", .str "main"), ("exports", .list [.str "f"])]])]

/-- The workspace that this document leads to. -/
def besideLeftover : Workspace := (withPlugin.load (.str "demo") leftover).2

theorem opened_leftover : besideLeftover.Opened leftover := opened_of_isOk (by decide +kernel)

theorem policy_leftover : besideLeftover.policy = .ok ⟨.str "internal", false⟩ := by
  obtain ⟨g, ready⟩ := opened_leftover.ready
  exact policy_of_unset ready.configured (by decide +kernel)

theorem resolve_leftover : ∃ rs, besideLeftover.resolve = (.ok (some rs), besideLeftover.resolve.2) := by
  have some : (reportOf besideLeftover.resolve.1).isSome = true := by decide +kernel
  obtain ⟨rs, report⟩ := Option.isSome_iff_exists.1 some
  exact ⟨rs, resolve_of_report report⟩

theorem excused_of_missing_leftover : ∃ rs w', besideLeftover.resolve = (.ok (some rs), w') ∧
    (∀ m ∈ w'.modules, ∀ symbol ∈ w'.store.missing m, Excused ⟨.str "internal", false⟩ w'.store rs symbol) ∧
    ∀ before later after, besideLeftover.modules = before ++ (later ++ after) → ∃ rs₁ u rs₂ v,
      resolveModules besideLeftover.known ⟨.str "internal", false⟩ besideLeftover.modules before
        besideLeftover.opening = (.ok rs₁, u) ∧
      resolveModules besideLeftover.known ⟨.str "internal", false⟩ besideLeftover.modules later u = (.ok rs₂, v) ∧
      ∀ m ∈ before, ∀ symbol ∈ v.store.missing m, symbol ∈ u.store.missing m :=
  excused_of_missing opened_leftover ⟨_, _, rfl, rfl⟩ policy_leftover (apart_str.2 (by decide +kernel))

end DocTree
