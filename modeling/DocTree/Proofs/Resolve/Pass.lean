import DocTree.Plugin
import DocTree.Proofs.Document.Load
import DocTree.Proofs.Resolve.Turn

/-!
# Passes

* `Passes known policy modules rest w rs w'` : the turns of some modules, one after the other;
  `Passes.passed` : what they leave alone;
* `resolveModules_append` : resolving modules goes through the first ones, and then through the others;
* `Resolution policy w rs w'` : a whole pass; `Abort policy w w'` : one that breaks off at a module;
  `resolve_outcome` : what `resolve` does is one or the other;
* `Resolution.passed` : what a pass leaves alone.
-/

namespace DocTree

open Workspace

variable {g : Ground} {known : OrdMap NodeId Value} {policy : Policy} {modules rest : List NodeId}
  {w w₁ w' : Workspace} {rs : Report}

/-- The modules of a pass hang below the project, or the pass goes through the project itself. -/
structure Ahead (g : Ground) (modules : List NodeId) (w : Workspace) : Prop where
  sound : Sound g w
  placed : modules = [g.project] ∨ ∀ m ∈ modules, m ∈ w.store.children g.project

namespace Ahead

theorem proper (h : Ahead g modules w) {m : NodeId} (mem : m ∈ modules) : g.Proper m := by
  rcases h.placed with rfl | below
  · exact Or.inl (List.mem_singleton.1 mem)
  · exact Or.inr (h.sound.layout.child (Or.inl rfl) (below m mem)).1

theorem isContainer (h : Ahead g modules w) {m : NodeId} (mem : m ∈ modules) : w.store.isContainer m = true := by
  rcases h.placed with rfl | below
  · obtain ⟨children, project⟩ := h.sound.layout.project
    rw [List.mem_singleton.1 mem, Store.isContainer, project]
    rfl
  · obtain ⟨_, _, _, b, body⟩ := h.sound.layout.child (Or.inl rfl) (below m mem)
    rw [Store.isContainer, body]
    rfl

theorem inside (h : Ahead g modules w) {m : NodeId} (mem : m ∈ modules) : m < w.store.nodes.size := by
  rcases h.placed with rfl | below
  · exact List.mem_singleton.1 mem ▸ h.sound.layout.project_lt_size
  · exact (h.sound.layout.child (Or.inl rfl) (below m mem)).2.1

theorem fits (h : Ahead g modules w) (job : Job) (all : job.modules = modules) (mem : job.module ∈ modules) :
    Fits g job (job.begin w) :=
  ⟨h.sound, fun _ here => h.isContainer (all ▸ here), all ▸ mem, h.proper mem, nofun⟩

theorem passed (h : Ahead g modules w) (p : Passed g policy rest w w') : Ahead g modules w' := by
  refine ⟨p.sound, h.placed.imp_right fun below m mem => ?_⟩
  obtain ⟨extra, eq, _⟩ := (p.outgrows policy.namespaceName fun _ => rfl).children h.sound.layout.project_lt_size
  rw [eq]
  exact List.mem_append_left _ (below m mem)

end Ahead

theorem Sound.ahead (h : Sound g w) : Ahead g w.modules w := by
  refine ⟨h, ?_⟩
  unfold Workspace.modules
  rw [h.project]
  split
  · exact Or.inl rfl
  · exact Or.inr fun m mem => List.mem_of_mem_filter mem

theorem Sound.ahead_of_quiet (h : Sound g w) {v : Workspace} (quiet : Quiet w v) : Ahead g w.modules v := by
  have ahead := (h.quiet quiet).ahead
  unfold Workspace.modules at ahead ⊢
  rwa [quiet.store, quiet.project] at ahead

theorem Sound.nodup_modules (h : Sound g w) : w.modules.Nodup := by
  unfold Workspace.modules
  split
  · exact List.nodup_singleton _
  · exact (h.layout.nodup (h.project ▸ Or.inl rfl)).filter _

/-! ## Turn by turn -/

/-- The turns of some modules, one after the other. A module that misses nothing has none. -/
inductive Passes (known : OrdMap NodeId Value) (policy : Policy) (modules : List NodeId) :
    List NodeId → Workspace → Report → Workspace → Prop
  | nil (w : Workspace) : Passes known policy modules [] w [] w
  | clean {m : NodeId} {rest : List NodeId} {w w' : Workspace} {rs : Report} : w.store.missing m = [] →
      Passes known policy modules rest w rs w' → Passes known policy modules (m :: rest) w rs w'
  | turn {m : NodeId} {rest : List NodeId} {w w₁ w' : Workspace} {r : ModuleReport} {rs : Report} :
      w.store.missing m ≠ [] → Turn ⟨m, modules, known.find? m, policy⟩ w r w₁ →
      Passes known policy modules rest w₁ rs w' → Passes known policy modules (m :: rest) w (r :: rs) w'

theorem Passed.weaken {ms ms' : List NodeId} (h : Passed g policy ms w w') (sub : ∀ m ∈ ms, m ∈ ms') :
    Passed g policy ms' w w' :=
  { h with same := fun inside other => h.same inside fun mem => other (sub _ mem) }

/-- What the turns of some modules leave alone. -/
theorem Passes.passed (passes : Passes known policy modules rest w rs w') (h : Ahead g modules w)
    (sub : ∀ m ∈ rest, m ∈ modules) : Passed g policy rest w w' := by
  induction passes with
  | nil w => exact .refl h.sound policy []
  | clean _ _ ih =>
    exact (ih h fun m mem => sub m (List.mem_cons_of_mem _ mem)).weaken fun m => List.mem_cons_of_mem _
  | turn _ turn _ ih =>
    have first := turn.passed (h.fits _ rfl (sub _ List.mem_cons_self))
    exact first.trans (ih (h.passed first) fun m mem => sub m (List.mem_cons_of_mem _ mem))

def Stops (known : OrdMap NodeId Value) (policy : Policy) (modules rest : List NodeId) (w : Workspace) : Prop :=
  ∃ before m after rs u, rest = before ++ m :: after ∧ Passes known policy modules before w rs u ∧
    u.store.missing m ≠ [] ∧ Stalls ⟨m, modules, known.find? m, policy⟩ u

/-- The pass breaks off at such a module. -/
inductive Stopped (known : OrdMap NodeId Value) (policy : Policy) (modules : List NodeId) :
    List NodeId → Workspace → Workspace → Prop
  | mk {before after : List NodeId} {m : NodeId} {rs : Report} {w u w' : Workspace} :
      Passes known policy modules before w rs u → u.store.missing m ≠ [] →
      Stalled ⟨m, modules, known.find? m, policy⟩ u w' → Stopped known policy modules (before ++ m :: after) w w'

theorem Stopped.stops (h : Stopped known policy modules rest w w') : Stops known policy modules rest w := by
  obtain ⟨passes, some, stalled⟩ := h
  exact ⟨_, _, _, _, _, rfl, passes, some, stalled.stalls⟩

/-- A module that misses something has its turn, and then the others have theirs. -/
theorem resolveModules_cons (h : Layout g w.store) {m : NodeId} (some : w.store.missing m ≠ []) :
    resolveModules known policy modules (m :: rest) w =
      match w.resolveModule ⟨m, modules, known.find? m, policy⟩ (w.store.missing m) with
      | (.error e, w) => (.error e, w)
      | (.ok r, w) =>
        match resolveModules known policy modules rest w with
        | (.error e, w) => (.error e, w)
        | (.ok rs, w) => (.ok (r :: rs), w) := by
  conv_lhs => unfold resolveModules
  rw [h.search_eq]
  obtain ⟨symbol, symbols, eq⟩ := List.exists_cons_of_ne_nil some
  generalize w.store.missing m = missing at eq
  subst eq
  rfl

theorem resolveModules_clean (h : Layout g w.store) {m : NodeId} (none : w.store.missing m = []) :
    resolveModules known policy modules (m :: rest) w = resolveModules known policy modules rest w := by
  conv_lhs => unfold resolveModules
  rw [h.search_eq, none]

variable (known policy) in
/-- Resolving modules takes their turns one after the other, unless the pass stops. -/
theorem resolveModules_cases (h : Ahead g modules w) (sub : ∀ m ∈ rest, m ∈ modules) :
    (∃ rs w', resolveModules known policy modules rest w = (.ok rs, w') ∧
        Passes known policy modules rest w rs w') ∨
      ∃ w', resolveModules known policy modules rest w = (.error .noActiveProgram, w') ∧
        Stopped known policy modules rest w w' := by
  induction rest generalizing w with
  | nil => exact Or.inl ⟨[], w, rfl, .nil w⟩
  | cons m rest ih =>
    have sub' : ∀ m ∈ rest, m ∈ modules := fun m mem => sub m (List.mem_cons_of_mem _ mem)
    by_cases none : w.store.missing m = []
    · rw [resolveModules_clean h.sound.layout none]
      rcases ih h sub' with ⟨rs, w', eq, passes⟩ | ⟨w', eq, passes, some, stalled⟩
      · exact Or.inl ⟨rs, w', eq, .clean none passes⟩
      · exact Or.inr ⟨_, eq, .mk (.clean none passes) some stalled⟩
    · have fits := h.fits ⟨m, modules, known.find? m, policy⟩ rfl (sub m List.mem_cons_self)
      rw [resolveModules_cons h.sound.layout none]
      rcases resolveModule_cases fits none with ⟨r, w₁, eq, turn⟩ | ⟨w₁, eq, stalled⟩
      · rw [eq]
        rcases ih (h.passed (turn.passed fits)) sub' with ⟨rs, w', eq, passes⟩ | ⟨w', eq, passes, some, stalled⟩
        · simp only [eq]
          exact Or.inl ⟨_, _, rfl, .turn none turn passes⟩
        · simp only [eq]
          exact Or.inr ⟨_, rfl, .mk (.turn none turn passes) some stalled⟩
      · rw [eq]
        exact Or.inr ⟨_, rfl, show Stopped known policy modules ([] ++ m :: rest) w w₁ from .mk (.nil w) none stalled⟩

/-- What resolving modules led to, if it ended well, are their turns. -/
theorem passes_of_ok (h : Ahead g modules w) (sub : ∀ m ∈ rest, m ∈ modules)
    (ok : resolveModules known policy modules rest w = (.ok rs, w')) : Passes known policy modules rest w rs w' := by
  rcases resolveModules_cases known policy h sub with ⟨rs', w'', eq, passes⟩ | ⟨w'', eq, _⟩
  · rw [ok] at eq
    cases eq
    exact passes
  · rw [ok] at eq
    cases eq

variable (known policy modules) in
theorem resolveModules_module (m : NodeId) (rest : List NodeId) (w : Workspace) :
    resolveModules known policy modules (m :: rest) w =
      match w.store.search m with
      | .error e => (.error e, w)
      | .ok [] => resolveModules known policy modules rest w
      | .ok missing =>
        match w.resolveModule ⟨m, modules, known.find? m, policy⟩ missing with
        | (.error e, w) => (.error e, w)
        | (.ok r, w) =>
          match resolveModules known policy modules rest w with
          | (.error e, w) => (.error e, w)
          | (.ok rs, w) => (.ok (r :: rs), w) := rfl

variable (known policy modules) in
/-- A pass goes through the first modules, and then through the others. -/
theorem resolveModules_append (before rest : List NodeId) (w : Workspace) :
    resolveModules known policy modules (before ++ rest) w =
      match resolveModules known policy modules before w with
      | (.error e, u) => (.error e, u)
      | (.ok rs, u) =>
        match resolveModules known policy modules rest u with
        | (.error e, v) => (.error e, v)
        | (.ok rs', v) => (.ok (rs ++ rs'), v) := by
  induction before generalizing w with
  | nil =>
    show resolveModules known policy modules rest w = match resolveModules known policy modules rest w with
      | (.error e, v) => (.error e, v)
      | (.ok rs', v) => (.ok rs', v)
    generalize resolveModules known policy modules rest w = answer
    obtain ⟨_ | _, _⟩ := answer <;> rfl
  | cons m before ih =>
    rw [List.cons_append, resolveModules_module, resolveModules_module]
    generalize w.store.search m = missing
    obtain e | (_ | ⟨symbol, symbols⟩) := missing
    · rfl
    · exact ih w
    · dsimp only
      generalize w.resolveModule ⟨m, modules, known.find? m, policy⟩ (symbol :: symbols) = answer
      obtain ⟨e | r, u⟩ := answer
      · rfl
      · simp only [ih u]
        generalize resolveModules known policy modules before u = answer
        obtain ⟨e | rs, v⟩ := answer
        · rfl
        · dsimp only
          generalize resolveModules known policy modules rest v = answer
          obtain ⟨_ | _, _⟩ := answer <;> rfl

theorem exists_of_resolveModules_append {all before : List NodeId} (eq : all = before ++ rest)
    (ok : resolveModules known policy modules all w = (.ok rs, w')) :
    ∃ rs₁ rs₂ u, rs = rs₁ ++ rs₂ ∧ resolveModules known policy modules before w = (.ok rs₁, u) ∧
      resolveModules known policy modules rest u = (.ok rs₂, w') := by
  rw [eq, resolveModules_append] at ok
  generalize first : resolveModules known policy modules before w = answer at ok
  obtain ⟨_ | rs₁, u⟩ := answer
  · cases ok
  · dsimp only at ok
    generalize went : resolveModules known policy modules rest u = answer at ok
    obtain ⟨_ | rs₂, v⟩ := answer <;> cases ok
    exact ⟨rs₁, rs₂, u, rfl, rfl, went⟩

/-! ## Whole passes -/

/-- What was known of programs is used up; besides, something may have been logged. -/
structure Cleared (w w' : Workspace) : Prop where
  store : w'.store = w.store
  project : w'.project = w.project
  active : w'.active = w.active
  bindings : w'.bindings = w.bindings
  settings : w'.settings = w.settings
  listeners : w'.listeners = w.listeners
  known : w'.known = .empty

/-- A whole pass. -/
inductive Resolution (policy : Policy) (w : Workspace) : Report → Workspace → Prop
  | mk {v u w' : Workspace} {rs : Report} : Quiet w v → Passes w.known policy w.modules w.modules v rs u →
      Cleared u w' → Resolution policy w rs w'

/-- A pass that breaks off. -/
inductive Abort (policy : Policy) (w : Workspace) : Workspace → Prop
  | mk {v u w' : Workspace} : Quiet w v → Stopped w.known policy w.modules w.modules v u → Cleared u w' →
      Abort policy w w'

/-- The workspace in which the first module has its turn, after a line in the log. -/
def Workspace.opening (w : Workspace) : Workspace :=
  w.report .info .options ("resolving project " ++ (w.store.node w.project).name.display)

theorem quiet_opening (w : Workspace) : Quiet w w.opening := quiet_report ..

theorem Sound.hasModules (h : Sound g w) : w.hasModules = true := by
  unfold Workspace.hasModules Store.haveFlags
  rw [h.layout.strays]
  exact List.all_eq_true.2 fun id _ => Strays.hasFlags_empty id

theorem pluginPass_eq (flags : w.hasModules = true) (ask : w.policy = .ok policy) : w.pluginPass =
    match resolveModules w.known policy w.modules w.modules w with
    | (.error e, u) => (.error e, { u with known := .empty })
    | (.ok rs, u) => (.ok rs, { u.report .info .resolution ("missing exports: " ++ toString rs.aliasedCount
        ++ " aliased, " ++ toString rs.synthesizedCount ++ " synthesized") with known := .empty }) := by
  unfold pluginPass
  simp only [ask, resolvePass, flags, Bool.not_true, Bool.false_eq_true, if_false]
  obtain ⟨answer, u⟩ := resolveModules w.known policy w.modules w.modules w
  cases answer <;> rfl

/-- What the start of resolution comes to if nobody acts then but the plugin. -/
theorem resolve_of_acts (acts : w.reacting? resolutionEvent = some [⟨resolutionEvent, passPriority, .resolve⟩])
    (flags : w.hasModules = true) (ask : w.policy = .ok policy) : w.resolve =
    match resolveModules w.known policy w.modules w.modules w.opening with
    | (.error e, u) => (.error e, { u with known := .empty })
    | (.ok rs, u) => (.ok (some rs), { u.report .info .resolution ("missing exports: " ++ toString rs.aliasedCount
        ++ " aliased, " ++ toString rs.synthesizedCount ++ " synthesized") with known := .empty }) := by
  have only : w.resolve = w.opening.startPasses none [⟨resolutionEvent, passPriority, .resolve⟩] := by
    have acts : w.opening.reacting? resolutionEvent = _ := acts
    unfold opening at acts
    unfold resolve
    simp only [acts]
    rfl
  rw [only]
  simp only [startPasses]
  rw [pluginPass_eq (show w.opening.hasModules = true from flags) (show w.opening.policy = .ok policy from ask),
    show resolveModules w.opening.known policy w.opening.modules w.opening.modules w.opening =
      resolveModules w.known policy w.modules w.modules w.opening from rfl]
  obtain ⟨answer, u⟩ := resolveModules w.known policy w.modules w.modules w.opening
  cases answer <;> rfl

theorem resolve_eq (h : Sound g w) (ask : w.policy = .ok policy) : w.resolve =
    match resolveModules w.known policy w.modules w.modules w.opening with
    | (.error e, u) => (.error e, { u with known := .empty })
    | (.ok rs, u) => (.ok (some rs), { u.report .info .resolution ("missing exports: " ++ toString rs.aliasedCount
        ++ " aliased, " ++ toString rs.synthesizedCount ++ " synthesized") with known := .empty }) :=
  resolve_of_acts h.plugin.reacting_resolution h.hasModules ask

/-- Starting resolution is a pass, or one that breaks off. -/
theorem resolve_outcome (h : Sound g w) (ask : w.policy = .ok policy) :
    (∃ rs w', w.resolve = (.ok (some rs), w') ∧ Resolution policy w rs w') ∨
      ∃ w', w.resolve = (.error .noActiveProgram, w') ∧ Abort policy w w' := by
  have quiet := quiet_opening w
  rw [resolve_eq h ask]
  rcases resolveModules_cases w.known policy (h.ahead_of_quiet quiet) fun m mem => mem with
    ⟨rs, u, eq, passes⟩ | ⟨u, eq, stopped⟩
  · rw [eq]
    exact Or.inl ⟨rs, _, rfl, .mk quiet passes ⟨rfl, rfl, rfl, rfl, rfl, rfl, rfl⟩⟩
  · rw [eq]
    exact Or.inr ⟨_, rfl, .mk quiet stopped ⟨rfl, rfl, rfl, rfl, rfl, rfl, rfl⟩⟩

theorem resolve_cases (h : Sound g w) (ask : w.policy = .ok policy) :
    (∃ rs w', w.resolve = (.ok (some rs), w') ∧ Resolution policy w rs w') ∨
      ∃ e w', w.resolve = (.error e, w') ∧ ∃ v, Quiet w v ∧ Stops w.known policy w.modules w.modules v := by
  refine (resolve_outcome h ask).imp_right fun ⟨w', eq, abort⟩ => ?_
  obtain ⟨quiet, stopped, _⟩ := abort
  exact ⟨_, w', eq, _, quiet, stopped.stops⟩

theorem Cleared.nodeOf? (h : Cleared w w') (symbol : SymbolId) : w'.nodeOf? symbol = w.nodeOf? symbol := by
  unfold Workspace.nodeOf? index
  rw [h.store, h.project]

theorem Resolution.turns (h : Sound g w) (resolution : Resolution policy w rs w') :
    ∃ v u, Quiet w v ∧ Ahead g w.modules v ∧ Passes w.known policy w.modules w.modules v rs u ∧ Cleared u w' := by
  obtain ⟨quiet, passes, cleared⟩ := resolution
  exact ⟨_, _, quiet, h.ahead_of_quiet quiet, passes, cleared⟩

/-- What a whole pass leaves alone. -/
theorem Resolution.passed (h : Sound g w) (resolution : Resolution policy w rs w') :
    Passed g policy w.modules w w' := by
  obtain ⟨v, u, quiet, ahead, passes, cleared⟩ := resolution.turns h
  have passed := (Passed.quiet h quiet policy).trans (passes.passed ahead fun m mem => mem)
  refine ⟨passed.sound.congr cleared.store cleared.project cleared.listeners, ?_, ?_, ?_, ?_, ?_, ?_, ?_⟩
  · exact (congrArg Store.symbols cleared.store).trans passed.symbols
  · exact cleared.settings.trans passed.settings
  · exact fun here => cleared.active.trans (passed.inactive here)
  · exact fun here => cleared.store ▸ passed.containers here
  · exact fun label called => cleared.store ▸ passed.outgrows label called
  · exact fun inside other => cleared.store ▸ passed.same inside other
  · exact fun here => (cleared.nodeOf? _).trans (passed.bound here)

/-- What starting resolution led to, if it ended well, is a pass. -/
theorem resolution_of_ok (h : Sound g w) (ask : w.policy = .ok policy) (ok : w.resolve = (.ok (some rs), w')) :
    Resolution policy w rs w' := by
  rcases resolve_cases h ask with ⟨rs', w'', eq, resolution⟩ | ⟨e, w'', eq, _⟩
  · rw [ok] at eq
    cases eq
    exact resolution
  · rw [ok] at eq
    cases eq

theorem exists_of_resolve (h : Sound g w) (ask : w.policy = .ok policy) (ok : w.resolve = (.ok (some rs), w')) :
    ∃ u, resolveModules w.known policy w.modules w.modules w.opening = (.ok rs, u) ∧ w'.store = u.store := by
  rw [resolve_eq h ask] at ok
  generalize resolveModules w.known policy w.modules w.modules w.opening = answer at ok
  obtain ⟨_ | rs', u⟩ := answer <;> cases ok
  exact ⟨u, rfl, rfl⟩

def reportOf (answer : Except Error (Option Report)) : Option Report := answer.toOption.bind id

theorem resolve_of_report (some : reportOf w.resolve.1 = some rs) : w.resolve = (.ok (.some rs), w.resolve.2) := by
  generalize w.resolve = answer at some
  obtain ⟨answer, w'⟩ := answer
  cases answer with
  | error e => cases some
  | ok last =>
    obtain rfl : last = _ := some
    rfl

/-! ## Names -/

/-- No name ends in the label. -/
def Apart (names : List String) (label : Value) : Prop :=
  ∀ name ∈ names, ∀ part, lastPart name = some part → label ≠ .str part

theorem apart_str {names : List String} {text : String} :
    Apart names (.str text) ↔ ∀ name ∈ names, lastPart name ≠ some text :=
  ⟨fun apart name mem last => apart name mem text last rfl, fun apart name mem part last same =>
    apart name mem (last.trans (by rw [Value.str.inj same]))⟩

theorem Catalog.not_endsIn {s : Store} (h : Catalog g s) {label : Value} (apart : Apart g.names label)
    {symbol : SymbolId} (named : symbol < g.top) : ¬EndsIn s symbol label := by
  rintro ⟨name, part, called, last, same⟩
  obtain ⟨_, name', mem, called'⟩ := h.named named
  rw [called] at called'
  cases called'
  exact apart name mem part last same

end DocTree
