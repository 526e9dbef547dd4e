import DocTree.Proofs.Resolve.Turns

/-!
# What an entry of the report says of the symbols that were tried

* `Fate` : what a report can say of a symbol; `ModuleReport.count` : how often it says so;
* `Job.fate` : what becomes of a symbol when its turn comes, which may be nothing that is reported;
* `Resolves.tells_fate` : a step reports on its symbol once, if at all, and `Resolves.count_other` on no other;
* `Course.fates`, `Course.left_eq` : so it is for all symbols that were tried in the course of a run;
* `Accounts job start r w` : the same for the whole run, whose namespace may be removed in the end;
* `accountsFor_iff` : which entries of a pass account for all symbols.
-/

namespace DocTree

open Workspace

/-- What a report can say of a symbol. -/
inductive Fate where
  | aliased
  | synthesized
  | skipped
  | unresolved
  | dropped
  deriving DecidableEq

/-- How often a report says so of a symbol. A symbol is synthesized if its node is listed as such. -/
def ModuleReport.count (r : ModuleReport) (w : Workspace) (symbol : SymbolId) : Fate → Nat
  | .aliased => (r.aliased.map (·.1)).count symbol
  | .synthesized => (r.synthesized.map some).count (w.nodeOf? symbol)
  | .skipped => r.skipped.count symbol
  | .unresolved => r.unresolved.count symbol
  | .dropped => r.dropped.count symbol

/-- How often a report says anything of a symbol. -/
def ModuleReport.total (r : ModuleReport) (w : Workspace) (symbol : SymbolId) : Nat :=
  r.count w symbol .aliased + r.count w symbol .synthesized + r.count w symbol .skipped +
    r.count w symbol .unresolved + r.count w symbol .dropped

/-- What becomes of a symbol when its turn comes: none of the five, if it cannot be described and a declaration
would have to be created for it. -/
def Job.fate (job : Job) (w : Workspace) (symbol : SymbolId) : Option Fate :=
  if (w.store.symbol symbol).isDefaultExport then some .skipped
  else
    match w.namesake? symbol with
    | some id => if job.modules.any (Job.holds w.store · id) then some .aliased else some .dropped
    | none =>
      if job.policy.linkOnly then some .unresolved
      else if (w.store.symbol symbol).description.isSome then some .synthesized
      else none

variable {g : Ground} {policy : Policy} {w w' : Workspace} {job : Job} {start p q : Progress} {symbol symbol' : SymbolId}
  {id : NodeId} {tried pending : List SymbolId} {r : ModuleReport} {rs : Report} {fate : Fate}

/-! ## Steps -/

/-- A step leaves the nodes of other symbols of the document as they are. -/
theorem Resolves.nodeOf?_other (resolves : Resolves job p symbol q) (h : Fits g job p) (named : symbol < g.top)
    (named' : symbol' < g.top) (other : symbol' ≠ symbol) : q.workspace.nodeOf? symbol' = p.workspace.nodeOf? symbol' := by
  cases resolves with
  | skipped => rfl
  | dropped _ _ _ quiet => exact quiet.nodeOf? _
  | aliased _ _ _ quiet =>
    refine (quiet.nodeOf? _).trans ((nodeOf?_register h.sound.consistent ..).trans (if_neg ?_))
    rintro ⟨⟩
    exact other rfl
  | unresolved => rfl
  | undescribed _ _ _ _ opens _ quiet => exact (quiet.nodeOf? _).trans ((opens.prepared h).nodeOf? _)
  | @synthesized _ q _ w₁ _ _ _ _ _ opens _ converts quiet =>
    have prepared := opens.prepared h
    have ext := (converts.spec (prepared.hosts named)).ext
    refine (quiet.nodeOf? _).trans (Eq.trans ?_ (prepared.nodeOf? symbol'))
    cases before : q.workspace.nodeOf? symbol' with
    | some id => exact ext.bound before
    | none =>
      refine Option.eq_none_iff_forall_ne_some.2 fun id after => ?_
      obtain ⟨_, _, root, here, owns⟩ := ext.fresh before after
      rw [List.mem_singleton.1 here] at owns
      rcases prepared.fits.sound.catalog.eq_or_le_of_owns owns with same | member
      · exact other same
      · exact absurd named' (Nat.not_lt_of_le member)

/-- What is listed as synthesized hangs in the namespace, and in no module. -/
theorem Underway.synthesized (h : Underway g job start.workspace tried p) (tells : Tells p)
    (proper : ∀ m ∈ job.modules, g.Proper m) (old : ∀ m ∈ job.modules, m < start.workspace.store.nodes.size)
    (mem : id ∈ p.report.synthesized) :
    id < p.workspace.store.nodes.size ∧ ¬HeldBy job.modules p.workspace.store id := by
  unfold Tells at tells
  split at tells
  · rw [tells] at mem
    cases mem
  · rename_i scope internal
    rw [← tells] at mem
    obtain ⟨above, _, _⟩ := h.fits.internal internal
    obtain ⟨_, inside, parent, _⟩ := h.fits.sound.layout.child (Or.inr above) mem
    refine ⟨inside, ?_⟩
    rintro ⟨m, here, holds⟩
    have held : id ∈ p.workspace.store.children m := by
      have mem := List.contains_iff_mem.1 (show List.contains _ _ = true from holds)
      exact List.mem_of_mem_filter mem
    obtain ⟨_, _, parent', _⟩ := h.fits.sound.layout.child (proper m here) held
    rw [parent] at parent'
    cases parent'
    exact absurd (old _ here) (Nat.not_lt_of_le (h.internal internal).1)

theorem count_some_eq_zero {ids : List NodeId} {id? : Option NodeId} (unlisted : ∀ id ∈ ids, id? ≠ some id) :
    (ids.map some).count id? = 0 :=
  List.count_eq_zero.2 fun mem => by
    obtain ⟨id, here, rfl⟩ := List.mem_map.1 mem
    exact unlisted id here rfl

/-- A step reports on its symbol what becomes of it, and no more. -/
structure TellsFate (job : Job) (p : Progress) (symbol : SymbolId) (q : Progress) : Prop where
  count : ∀ fate, q.report.count q.workspace symbol fate =
    p.report.count p.workspace symbol fate + if job.fate p.workspace symbol = some fate then 1 else 0
  left : (if (q.workspace.nodeOf? symbol).isNone then 1 else 0) + p.report.leftCount =
    q.report.leftCount + if job.fate p.workspace symbol = none then 1 else 0
  node : q.workspace.nodeOf? symbol = none ↔
    job.fate p.workspace symbol ≠ some .aliased ∧ job.fate p.workspace symbol ≠ some .synthesized

/-- A step reports on its symbol what becomes of it, provided that what it reported before as synthesized is
in the tree, and in no module. -/
theorem Resolves.tellsFate (resolves : Resolves job p symbol q) (h : Fits g job p) (named : symbol < g.top)
    (unbound : p.workspace.nodeOf? symbol = none)
    (listed : ∀ id ∈ p.report.synthesized, id < p.workspace.store.nodes.size ∧ ¬HeldBy job.modules p.workspace.store id) :
    TellsFate job p symbol q := by
  cases resolves with
  | skipped isDefault =>
    have fate : job.fate p.workspace symbol = some .skipped := by simp [Job.fate, isDefault]
    refine ⟨fun f => ?_, ?_, by simp [fate, unbound]⟩
    · cases f <;> simp [ModuleReport.count, fate]
    · simp [ModuleReport.leftCount, fate, unbound]
      omega
  | @dropped id w proper found unheld quiet =>
    have fate : job.fate p.workspace symbol = some .dropped := by
      have none : job.modules.any (Job.holds p.workspace.store · id) = false := by
        simpa [HeldBy] using unheld
      simp [Job.fate, proper, found, none]
    refine ⟨fun f => ?_, ?_, by simp [fate, unbound, quiet.nodeOf?]⟩
    · cases f <;> simp [ModuleReport.count, fate, quiet.nodeOf?]
    · simp [ModuleReport.leftCount, fate, unbound, quiet.nodeOf?]
      omega
  | @aliased id w proper found held quiet =>
    have fate : job.fate p.workspace symbol = some .aliased := by
      have some : job.modules.any (Job.holds p.workspace.store · id) = true := by
        simpa [HeldBy] using held
      simp [Job.fate, proper, found, some]
    have bound : w.nodeOf? symbol = some id := by
      rw [quiet.nodeOf?, nodeOf?_register h.sound.consistent, if_pos rfl]
    have before : (p.report.synthesized.map some).count none = 0 := count_some_eq_zero fun _ _ => nofun
    have after : (p.report.synthesized.map some).count (some id) = 0 := count_some_eq_zero fun id' mem same =>
      (listed id' mem).2 (Option.some.inj same ▸ held)
    refine ⟨fun f => ?_, ?_, by simp [fate, bound]⟩
    · cases f <;> simp [ModuleReport.count, fate, bound, unbound, before, after]
    · simp [ModuleReport.leftCount, fate, bound]
  | unresolved proper unknown linkOnly =>
    have fate : job.fate p.workspace symbol = some .unresolved := by simp [Job.fate, proper, unknown, linkOnly]
    refine ⟨fun f => ?_, ?_, by simp [fate, unbound]⟩
    · cases f <;> simp [ModuleReport.count, fate]
    · simp [ModuleReport.leftCount, fate, unbound]
      omega
  | @undescribed id q w proper unknown creates _ opens undescribed quiet =>
    have fate : job.fate p.workspace symbol = none := by simp [Job.fate, proper, unknown, creates, undescribed]
    have report := (opens.prepared h).report
    have still : w.nodeOf? symbol = none := (quiet.nodeOf? _).trans (((opens.prepared h).nodeOf? _).trans unbound)
    refine ⟨fun f => ?_, ?_, by simp [fate, still]⟩
    · cases f <;> simp [ModuleReport.count, fate, report, still, unbound]
    · simp [fate, report, still]
      omega
  | @synthesized id q d w₁ w proper unknown creates _ opens described converts quiet =>
    have fate : job.fate p.workspace symbol = some .synthesized := by
      simp [Job.fate, proper, unknown, creates, described]
    have prepared := opens.prepared h
    have described' : (q.workspace.store.symbol symbol).description.isSome := by
      rw [Store.symbol, prepared.symbols, ← Store.symbol, described]
      rfl
    have bound : w.nodeOf? symbol = some q.workspace.store.nodes.size := (quiet.nodeOf? _).trans
      (converts.nodeOf?_eq (prepared.hosts named) ((prepared.nodeOf? _).trans unbound) described')
    have before : (p.report.synthesized.map some).count none = 0 := count_some_eq_zero fun _ _ => nofun
    have after : (p.report.synthesized.map some).count (some q.workspace.store.nodes.size) = 0 :=
      count_some_eq_zero fun id' mem same =>
        absurd (Option.some.inj same ▸ (listed id' mem).1) (Nat.not_lt_of_le prepared.size_le)
    refine ⟨fun f => ?_, ?_, by simp [fate, bound]⟩
    · cases f <;> simp [ModuleReport.count, fate, prepared.report, bound, unbound, before, after]
    · simp [ModuleReport.leftCount, fate, bound, prepared.report]

/-- A step reports on no other symbol. -/
theorem Resolves.count_other (resolves : Resolves job p symbol q) (h : Fits g job p) (named : symbol < g.top)
    (named' : symbol' < g.top) (other : symbol' ≠ symbol) (fate : Fate) :
    q.report.count q.workspace symbol' fate = p.report.count p.workspace symbol' fate := by
  have same := resolves.nodeOf?_other h named named' other
  have apart : symbol ≠ symbol' := other.symm
  cases resolves with
  | skipped => cases fate <;> simp [ModuleReport.count, apart]
  | dropped => cases fate <;> simp [ModuleReport.count, apart, same]
  | aliased => cases fate <;> simp [ModuleReport.count, apart, same]
  | unresolved => cases fate <;> simp [ModuleReport.count, apart]
  | undescribed _ _ _ _ opens =>
    have report := (opens.prepared h).report
    cases fate <;> simp [ModuleReport.count, report, same]
  | @synthesized id q d w₁ w _ _ _ _ opens _ _ _ =>
    have prepared := opens.prepared h
    have unbound : ([q.workspace.store.nodes.size].map some).count (p.workspace.nodeOf? symbol') = 0 :=
      count_some_eq_zero fun id' mem bound => by
        rw [List.mem_singleton.1 mem] at bound
        exact absurd (h.sound.bound bound).2.1 (Nat.not_lt_of_le prepared.size_le)
    cases fate with
    | synthesized =>
      show ((q.report.synthesized ++ _).map some).count (w.nodeOf? symbol') = _
      rw [show w.nodeOf? symbol' = _ from same, List.map_append, List.count_append, unbound, prepared.report]
      rfl
    | _ => simp [ModuleReport.count, prepared.report]

theorem total_eq {fate? : Option Fate} (count : ∀ fate, r.count w symbol fate = if fate? = some fate then 1 else 0) :
    r.total w symbol = if fate? = none then 0 else 1 := by
  unfold ModuleReport.total
  simp only [count]
  rcases fate? with _ | _ | _ | _ | _ | _ <;> rfl

/-! ## Runs -/

/-- A run starts with an empty report, and all modules are where modules can be. -/
structure Starts (g : Ground) (job : Job) (start : Progress) : Prop where
  fits : Fits g job start
  fresh : start.internal = none
  blank : start.report = { module := job.module }
  proper : ∀ m ∈ job.modules, g.Proper m

/-- A report says just once of a tried symbol what was to become of it when its turn came. -/
def Told (job : Job) (start : Progress) (tried : List SymbolId) (r : ModuleReport) (w : Workspace) (symbol : SymbolId) :
    Prop :=
  ∃ before after rest p, tried = before ++ symbol :: after ∧ Course job start before (symbol :: rest) p ∧
    ∀ fate, r.count w symbol fate = if job.fate p.workspace symbol = some fate then 1 else 0

namespace Course

theorem tellsFate (h : Starts g job start) (course : Course job start tried (symbol :: pending) p)
    (resolves : Resolves job p symbol q) : TellsFate job p symbol q := by
  have under := (course.underway h.fits h.fresh).1
  obtain ⟨_, named, unbound⟩ := course.turn h.fits h.fresh
  have tells := course.tells h.fits h.fresh (by rw [h.blank])
  exact resolves.tellsFate under.fits named unbound fun id mem =>
    under.synthesized tells h.proper (fun m here => Store.lt_of_isContainer (h.fits.containers m here)) mem

/-- In the course of a run the report says just once of each tried symbol what was to become of it, and
nothing of any other. -/
theorem fates (h : Starts g job start) (course : Course job start tried pending p) :
    (∀ symbol < g.top, symbol ∉ tried → ∀ fate, p.report.count p.workspace symbol fate = 0) ∧
      ∀ symbol ∈ tried, Told job start tried p.report p.workspace symbol := by
  induction course with
  | start =>
    refine ⟨fun symbol _ _ fate => ?_, List.forall_mem_nil _⟩
    show start.report.count start.workspace symbol fate = 0
    rw [h.blank]
    cases fate <;> rfl
  | again _ _ _ ih => exact ih
  | @step tried rest symbol p q course resolves ih =>
    obtain ⟨untold, told⟩ := ih
    have fits := (course.underway h.fits h.fresh).1.fits
    have below := (course.underway h.fits h.fresh).2.2
    obtain ⟨untried, named, _⟩ := course.turn h.fits h.fresh
    refine ⟨fun symbol' named' other fate => ?_, fun symbol' mem => ?_⟩
    · rw [List.mem_append, List.mem_singleton, not_or] at other
      rw [resolves.count_other fits named named' other.2]
      exact untold symbol' named' other.1 fate
    · rcases List.mem_append.1 mem with mem | mem
      · obtain ⟨before, after, rest', p', eq, turn, count⟩ := told symbol' mem
        have named' := (below symbol' (List.mem_append_left _ mem)).1
        have other : symbol' ≠ symbol := fun same => untried (same ▸ mem)
        refine ⟨before, after ++ [symbol], rest', p', by rw [eq]; simp, turn, fun fate => ?_⟩
        rw [resolves.count_other fits named named' other, count]
      · rw [List.mem_singleton.1 mem]
        refine ⟨tried, [], rest, p, rfl, course, fun fate => ?_⟩
        rw [(course.tellsFate h resolves).count, untold symbol named untried, Nat.zero_add]

/-- In the course of a run the tried symbols without a node are those that the report says are left, and those
that it says nothing of. -/
theorem left_eq (h : Starts g job start) (course : Course job start tried pending p) :
    (tried.filter fun symbol => (p.workspace.nodeOf? symbol).isNone).length =
      p.report.leftCount + (tried.filter fun symbol => p.report.total p.workspace symbol = 0).length := by
  induction course with
  | start =>
    show 0 = start.report.leftCount + 0
    rw [h.blank]
    rfl
  | again _ _ _ ih => exact ih
  | @step tried rest symbol p q course resolves ih =>
    have fits := (course.underway h.fits h.fresh).1.fits
    have below := (course.underway h.fits h.fresh).2.2
    obtain ⟨untried, named, _⟩ := course.turn h.fits h.fresh
    have step := course.tellsFate h resolves
    have other : ∀ symbol' ∈ tried, symbol' < g.top ∧ symbol' ≠ symbol := fun symbol' mem =>
      ⟨(below symbol' (List.mem_append_left _ mem)).1, fun same => untried (same ▸ mem)⟩
    have nodes : (tried.filter fun symbol => (q.workspace.nodeOf? symbol).isNone) =
        tried.filter fun symbol => (p.workspace.nodeOf? symbol).isNone :=
      List.filter_congr fun symbol' mem => by
        rw [resolves.nodeOf?_other fits named (other symbol' mem).1 (other symbol' mem).2]
    have totals : (tried.filter fun symbol => q.report.total q.workspace symbol = 0) =
        tried.filter fun symbol => p.report.total p.workspace symbol = 0 :=
      List.filter_congr fun symbol' mem => by
        unfold ModuleReport.total
        simp only [resolves.count_other fits named (other symbol' mem).1 (other symbol' mem).2]
    have here : q.report.total q.workspace symbol = if job.fate p.workspace symbol = none then 0 else 1 :=
      total_eq fun fate => by rw [step.count, (course.fates h).1 symbol named untried, Nat.zero_add]
    have added := step.left
    rw [List.filter_append, List.filter_append, List.length_append, List.length_append, nodes, totals, ih,
      List.filter_singleton, List.filter_singleton, here]
    revert added
    cases job.fate p.workspace symbol <;> cases q.workspace.nodeOf? symbol <;> simp <;> omega

/-- In the course of a run the tried symbols that have nodes are those that were aliased or synthesized. -/
theorem nodeOf?_eq_none_iff (h : Starts g job start) (course : Course job start tried pending p) :
    ∀ symbol ∈ tried, p.workspace.nodeOf? symbol = none ↔
      p.report.count p.workspace symbol .aliased = 0 ∧ p.report.count p.workspace symbol .synthesized = 0 := by
  induction course with
  | start => exact List.forall_mem_nil _
  | again _ _ _ ih => exact ih
  | @step tried rest symbol p q course resolves ih =>
    have fits := (course.underway h.fits h.fresh).1.fits
    have below := (course.underway h.fits h.fresh).2.2
    obtain ⟨untried, named, _⟩ := course.turn h.fits h.fresh
    intro symbol' mem
    rcases List.mem_append.1 mem with mem | mem
    · have named' := (below symbol' (List.mem_append_left _ mem)).1
      have other : symbol' ≠ symbol := fun same => untried (same ▸ mem)
      rw [resolves.nodeOf?_other fits named named' other, resolves.count_other fits named named' other,
        resolves.count_other fits named named' other]
      exact ih symbol' mem
    · have step := course.tellsFate h resolves
      rw [List.mem_singleton.1 mem, step.node, step.count, step.count, (course.fates h).1 symbol named untried,
        (course.fates h).1 symbol named untried]
      simp

end Course

/-! ## When the run is over -/

theorem Tells.synthesized_eq_nil (tells : Tells p) (internal : p.internal = some id)
    (empty : p.workspace.store.children id = []) : p.report.synthesized = [] := by
  unfold Tells at tells
  rw [internal] at tells
  exact tells.symm.trans empty

/-- What the report says does not change when the namespace is kept or removed. -/
theorem Settles.count (settles : Settles p q) (tells : Tells p) (symbol : SymbolId) (fate : Fate) :
    q.report.count q.workspace symbol fate = p.report.count p.workspace symbol fate := by
  cases settles with
  | bare => rfl
  | kept => cases fate <;> rfl
  | @pruned id internal empty =>
    cases fate with
    | synthesized =>
      show (p.report.synthesized.map some).count _ = (p.report.synthesized.map some).count _
      rw [tells.synthesized_eq_nil internal empty]
      rfl
    | _ => rfl

theorem Underway.nodeOf?_settled (h : Underway g job start.workspace tried p) (settles : Settles p q)
    (unbound : p.workspace.nodeOf? symbol = none) : q.workspace.nodeOf? symbol = none := by
  cases settles with
  | bare => exact unbound
  | kept => exact unbound
  | @pruned id internal empty =>
    have removable := h.removable internal empty
    refine (nodeOf?_remove h.fits.sound.consistent (removable.inside h.fits.sound.layout) removable.bare symbol).trans ?_
    rw [unbound]
    rfl

namespace ModuleReport

def lost (r : ModuleReport) (w : Workspace) (tried : List SymbolId) : List SymbolId :=
  tried.filter fun symbol => r.total w symbol = 0

/-- The tried symbols that were aliased to a node that was removed. -/
def vanished (r : ModuleReport) (w : Workspace) (tried : List SymbolId) : List SymbolId :=
  tried.filter fun symbol => r.count w symbol .aliased ≠ 0 ∧ w.nodeOf? symbol = none

end ModuleReport

/-- What a report says of the symbols that were tried in a run: of each just once what was to become of it, or
nothing if nothing was to. Those without a node are those that it says are left, and besides those that it says
nothing of, and those that were aliased to the namespace before it was removed. -/
structure Accounts (job : Job) (start : Progress) (tried : List SymbolId) (r : ModuleReport) (w : Workspace) : Prop where
  nodup : tried.Nodup
  told : ∀ symbol ∈ tried, Told job start tried r w symbol
  left : (tried.filter fun symbol => (w.nodeOf? symbol).isNone).length =
    r.leftCount + (r.lost w tried).length + (r.vanished w tried).length
  lost : ∀ symbol ∈ r.lost w tried, (start.workspace.store.symbol symbol).isDefaultExport = false ∧
    (start.workspace.store.symbol symbol).description = none ∧ job.policy.linkOnly = false
  vanished : ∀ symbol ∈ r.vanished w tried, EndsIn start.workspace.store symbol job.policy.namespaceName

theorem Job.undescribed_of_fate (none : job.fate w symbol = none) : (w.store.symbol symbol).isDefaultExport = false ∧
    (w.store.symbol symbol).description = .none ∧ job.policy.linkOnly = false := by
  unfold Job.fate at none
  split at none
  · cases none
  · rename_i proper
    split at none
    · split at none <;> cases none
    · split at none
      · cases none
      · rename_i creates
        split at none
        · cases none
        · rename_i undescribed
          exact ⟨Bool.eq_false_iff.2 proper, Option.not_isSome_iff_eq_none.1 undescribed, Bool.eq_false_iff.2 creates⟩

/-- A symbol that loses its node in the end had the namespace for it, and that was an alias. -/
theorem Course.lapsed (h : Starts g job start) (course : Course job start tried [] p) (settles : Settles p q)
    (mem : symbol ∈ tried) (after : q.workspace.nodeOf? symbol = none) (before : p.workspace.nodeOf? symbol ≠ none) :
    p.report.count p.workspace symbol .aliased ≠ 0 ∧
      EndsIn start.workspace.store symbol job.policy.namespaceName := by
  have under := (course.underway h.fits h.fresh).1
  have tells := course.tells h.fits h.fresh (by rw [h.blank])
  obtain ⟨id, bound⟩ := Option.ne_none_iff_exists'.1 before
  cases settles with
  | bare => exact absurd after before
  | kept => exact absurd after before
  | @pruned scope internal empty =>
    rcases under.settled (.pruned internal empty) bound with still | internal'
    · rw [after] at still
      cases still
    · refine ⟨fun none => before ((course.nodeOf?_eq_none_iff h symbol mem).2 ⟨none, ?_⟩),
        course.endsIn h.fits h.fresh internal' bound⟩
      show (p.report.synthesized.map some).count _ = 0
      rw [tells.synthesized_eq_nil internal empty]
      rfl

theorem Course.vanished_eq (h : Starts g job start) (course : Course job start tried [] p) (settles : Settles p q) :
    q.report.vanished q.workspace tried = tried.filter fun symbol =>
      (q.workspace.nodeOf? symbol).isNone && !(p.workspace.nodeOf? symbol).isNone := by
  have tells := course.tells h.fits h.fresh (by rw [h.blank])
  refine List.filter_congr fun symbol mem => ?_
  rw [settles.count tells, Bool.eq_iff_iff, decide_eq_true_iff, Bool.and_eq_true, Bool.not_eq_true',
    Option.isNone_iff_eq_none, Option.isNone_eq_false_iff, Option.isSome_iff_ne_none]
  refine ⟨fun ⟨aliased, after⟩ => ⟨after, fun before => ?_⟩, fun ⟨after, before⟩ => ?_⟩
  · exact aliased ((course.nodeOf?_eq_none_iff h symbol mem).1 before).1
  · exact ⟨(course.lapsed h settles mem after before).1, after⟩

/-- Those without a node in the end are those that the report says are left, those that it says nothing of,
and those that lost their nodes. -/
theorem Course.settled_left_eq (h : Starts g job start) (course : Course job start tried [] p) (settles : Settles p q) :
    (tried.filter fun symbol => (q.workspace.nodeOf? symbol).isNone).length =
      q.report.leftCount + (q.report.lost q.workspace tried).length + (q.report.vanished q.workspace tried).length := by
  have under := (course.underway h.fits h.fresh).1
  have tells := course.tells h.fits h.fresh (by rw [h.blank])
  have lost : q.report.lost q.workspace tried = tried.filter fun symbol => p.report.total p.workspace symbol = 0 :=
    List.filter_congr fun symbol _ => by
      unfold ModuleReport.total
      simp only [settles.count tells]
  have same : q.report.leftCount = p.report.leftCount := by cases settles <;> rfl
  have still : (tried.filter fun symbol => (q.workspace.nodeOf? symbol).isNone && (p.workspace.nodeOf? symbol).isNone) =
      tried.filter fun symbol => (p.workspace.nodeOf? symbol).isNone := by
    refine List.filter_congr fun symbol _ => ?_
    cases before : p.workspace.nodeOf? symbol with
    | some id => exact Bool.and_false _
    | none => rw [under.nodeOf?_settled settles before]; rfl
  rw [List.length_eq_length_filter_add fun symbol => (p.workspace.nodeOf? symbol).isNone, List.filter_filter,
    List.filter_filter, course.vanished_eq h settles, lost, same, ← course.left_eq h]
  simp only [Bool.and_comm] at still ⊢
  rw [still]

/-- A run accounts for the symbols that it tried. -/
theorem Course.accounts (h : Starts g job start) (course : Course job start tried [] p) (settles : Settles p q) :
    Accounts job start tried q.report (q.workspace.activate none) := by
  have nodup := (course.underway h.fits h.fresh).2.1
  rw [List.append_nil] at nodup
  have count := settles.count (course.tells h.fits h.fresh (by rw [h.blank]))
  have told : ∀ symbol ∈ tried, Told job start tried q.report q.workspace symbol := fun symbol mem => by
    obtain ⟨before, after, rest, p', eq, turn, told⟩ := (course.fates h).2 symbol mem
    exact ⟨before, after, rest, p', eq, turn, fun fate => (count symbol fate).trans (told fate)⟩
  refine ⟨nodup, told, course.settled_left_eq h settles, fun symbol mem => ?_, fun symbol mem => ?_⟩
  · obtain ⟨mem, none⟩ := List.mem_filter.1 (show symbol ∈ q.report.lost q.workspace tried from mem)
    obtain ⟨_, _, _, p', _, turn, count⟩ := told symbol mem
    rw [decide_eq_true_iff, total_eq count] at none
    have fate : job.fate p'.workspace symbol = .none := by
      by_contra some
      rw [if_neg some] at none
      cases none
    have undescribed := Job.undescribed_of_fate fate
    rwa [Store.symbol, (turn.underway h.fits h.fresh).1.symbols] at undescribed
  · have mem : symbol ∈ q.report.vanished q.workspace tried := mem
    rw [course.vanished_eq h settles, List.mem_filter, Bool.and_eq_true, Bool.not_eq_true', Option.isNone_iff_eq_none,
      Option.isNone_eq_false_iff, Option.isSome_iff_ne_none] at mem
    exact (course.lapsed h settles mem.1 mem.2.1 mem.2.2).2

/-- Resolving a module accounts for the symbols that were tried, if it ends well. -/
theorem accounts_of_resolveModule (h : Fits g job (job.begin w)) (proper : ∀ m ∈ job.modules, g.Proper m)
    (some : w.store.missing job.module ≠ [])
    (ok : w.resolveModule job (w.store.missing job.module) = (.ok r, w')) :
    Accounts job (job.opening w) (job.calls (job.opening w)) r w' := by
  have fits : Fits g job (job.opening w) := h.quiet (quiet_report ..)
  have met := run_meets fits rfl some
  rw [resolveModule_eq] at ok
  cases ran : job.run (w.store.missing job.module) (job.opening w) with
  | error e q =>
    rw [ran] at ok
    cases ok
  | ok _ q =>
    rw [ran] at ok
    cases ok
    obtain ⟨p, course, _, settles⟩ := met.of_ok ran
    exact course.accounts ⟨fits, rfl, rfl, proper⟩ settles

/-! ## Passes -/

/-- An entry accounts for the symbols that were tried: it says just one thing of each of them, and it says how
many of them are left without a node. -/
structure ModuleReport.AccountsFor (r : ModuleReport) (w : Workspace) (tried : List SymbolId) : Prop where
  once : ∀ symbol ∈ tried, r.total w symbol = 1
  left : r.leftCount = (tried.filter fun symbol => (w.nodeOf? symbol).isNone).length

theorem Accounts.complete_iff (h : Accounts job start tried r w) :
    r.AccountsFor w tried ↔ r.lost w tried = [] ∧ r.vanished w tried = [] := by
  have few : ∀ symbol ∈ tried, r.total w symbol = 0 ∨ r.total w symbol = 1 := fun symbol mem => by
    obtain ⟨_, _, _, p, _, _, count⟩ := h.told symbol mem
    rw [total_eq count]
    split
    · exact Or.inl rfl
    · exact Or.inr rfl
  have left := h.left
  constructor
  · intro complete
    have lost : r.lost w tried = [] := List.filter_eq_nil_iff.2 fun symbol mem none => by
      rw [decide_eq_true_iff, complete.once symbol mem] at none
      cases none
    rw [← complete.left, lost, List.length_nil] at left
    exact ⟨lost, List.length_eq_zero_iff.1 (by omega)⟩
  · rintro ⟨lost, vanished⟩
    rw [lost, vanished] at left
    refine ⟨fun symbol mem => (few symbol mem).resolve_left fun none => ?_, left.symm⟩
    exact List.filter_eq_nil_iff.1 lost symbol mem (decide_eq_true none)

/-- Which entries account for all symbols: those of runs that lost none, and in which none was aliased to a
namespace that was removed. In every run the entry says just once of each tried symbol what was to become of it;
it says nothing of those for which a declaration would have had to be created and that cannot be described. -/
theorem accountsFor_iff {document : Value} (opened : w.Opened document) (ask : w.policy = .ok policy)
    (ok : w.resolve = (.ok (some rs), w')) (mem : r ∈ rs) :
    let job : Job := ⟨r.module, w.modules, w.known.find? r.module, policy⟩
    ∃ u u', ComesTo w policy r.module u ∧ u.resolveModule job (u.store.missing r.module) = (.ok r, u') ∧
      Accounts job (job.opening u) (job.calls (job.opening u)) r u' ∧
      (r.AccountsFor u' (job.calls (job.opening u)) ↔
        r.lost u' (job.calls (job.opening u)) = [] ∧ r.vanished u' (job.calls (job.opening u)) = []) := by
  intro job
  obtain ⟨g, ready⟩ := opened.ready
  obtain ⟨u, u', comes, some, resolved⟩ := visits_of_mem ready.sound ask ok mem
  obtain ⟨here, ahead⟩ := comes.ahead ready.sound
  have accounts := accounts_of_resolveModule (ahead.fits job rfl here) (fun m mem => ahead.proper mem) some resolved
  exact ⟨u, u', comes, resolved, accounts, accounts.complete_iff⟩

/-- The job of resolving the only module of the document with something left. -/
def jobLeftover : Job := ⟨1, besideLeftover.modules, besideLeftover.known.find? 1, ⟨.str "internal", false⟩⟩

/-- The pass over that document has an entry for the module, which says nothing of the symbol that cannot be
described. -/
theorem entry_leftover : ∃ rs r u', besideLeftover.resolve = (.ok (some rs), besideLeftover.resolve.2) ∧ r ∈ rs ∧
    r.module = 1 ∧ ComesTo besideLeftover ⟨.str "internal", false⟩ 1 besideLeftover.opening ∧
      besideLeftover.opening.resolveModule jobLeftover (besideLeftover.opening.store.missing 1) = (.ok r, u') ∧
      1 ∈ jobLeftover.calls (jobLeftover.opening besideLeftover.opening) ∧ r.total u' 1 = 0 := by
  obtain ⟨g, ready⟩ := opened_leftover.ready
  obtain ⟨rs, ok⟩ := resolve_leftover
  have modules : besideLeftover.modules = [1] := by decide +kernel
  obtain ⟨u, comes, visits⟩ := exists_visits ready.sound policy_leftover ok (modules ▸ List.mem_singleton_self 1)
  obtain ⟨_, before, after, rs₁, eq, went⟩ := id comes
  have first : before = [] := by
    rw [modules] at eq
    cases before with
    | nil => rfl
    | cons m before =>
      have length := congrArg List.length eq
      simp at length
  subst first
  cases went
  have tried : 1 ∈ jobLeftover.calls (jobLeftover.opening besideLeftover.opening) := by decide +kernel
  have none : (match besideLeftover.opening.resolveModule jobLeftover (besideLeftover.opening.store.missing 1) with
    | (.ok r, u') => r.total u' 1
    | _ => 1) = 0 := by decide +kernel
  cases visits with
  | clean none =>
    have some : besideLeftover.opening.store.missing 1 ≠ [] := by decide +kernel
    exact absurd none some
  | @turn r u' _ mem same resolved =>
    have resolved : besideLeftover.opening.resolveModule jobLeftover (besideLeftover.opening.store.missing 1) =
      (.ok r, u') := resolved
    rw [resolved] at none
    exact ⟨rs, r, u', ok, mem, same, comes, resolved, tried, none⟩

theorem accountsFor_iff_leftover : ∃ rs r, besideLeftover.resolve = (.ok (some rs), besideLeftover.resolve.2) ∧ r ∈ rs ∧
    let job : Job := ⟨r.module, besideLeftover.modules, besideLeftover.known.find? r.module, ⟨.str "internal", false⟩⟩
    ∃ u u', ComesTo besideLeftover ⟨.str "internal", false⟩ r.module u ∧
      u.resolveModule job (u.store.missing r.module) = (.ok r, u') ∧
      Accounts job (job.opening u) (job.calls (job.opening u)) r u' ∧
      (r.AccountsFor u' (job.calls (job.opening u)) ↔
        r.lost u' (job.calls (job.opening u)) = [] ∧ r.vanished u' (job.calls (job.opening u)) = []) := by
  obtain ⟨rs, r, _, ok, mem, _⟩ := entry_leftover
  exact ⟨rs, r, ok, mem, accountsFor_iff opened_leftover policy_leftover ok mem⟩

/-- Not all entries account for all symbols. -/
theorem not_accountsFor_leftover : ¬∀ (document : Value) (policy : Policy) (w w' u u' : Workspace) (rs : Report)
    (r : ModuleReport) (job : Job), w.Opened document → w.policy = .ok policy → w.resolve = (.ok (some rs), w') →
      r ∈ rs → job = ⟨r.module, w.modules, w.known.find? r.module, policy⟩ → ComesTo w policy r.module u →
      u.resolveModule job (u.store.missing r.module) = (.ok r, u') → r.AccountsFor u' (job.calls (job.opening u)) := by
  intro all
  obtain ⟨rs, r, u', ok, mem, module, comes, resolved, tried, none⟩ := entry_leftover
  have job : jobLeftover =
      ⟨r.module, besideLeftover.modules, besideLeftover.known.find? r.module, ⟨.str "internal", false⟩⟩ := by
    rw [module, jobLeftover]
  rw [← module] at comes resolved
  have complete := all _ _ _ _ _ u' rs r jobLeftover opened_leftover policy_leftover ok mem job comes resolved
  rw [complete.once 1 tried] at none
  cases none

end DocTree
