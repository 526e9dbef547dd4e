import DocTree.Proofs.Resolve.Pass

/-!
# Where aliases lead

A pass binds a symbol to a node of its name. Such a node is one that was there before, or else a
namespace that the pass made.

* `Target g policy w s symbol target` : both cases, seen from the workspace `w` before the pass;
* `Course.aliased`, `Passes.aliased` : all pairs of a report are such pairs;
* `Faithful w w' symbol target` : a pair that keeps what the report promises;
* `faithful_iff` : these are the pairs whose target was there before; any other target is a namespace,
  and the name of the symbol ends in its name.
-/

namespace DocTree

open Workspace

/-- The target of an alias is a node that hung below the project before, or a namespace made since. -/
inductive Target (g : Ground) (policy : Policy) (w : Workspace) (s : Store) (symbol : SymbolId) (target : NodeId) :
    Prop
  | old {x : NodeId} : target < w.store.nodes.size → w.store.Below g.project x → target ∈ w.store.children x →
      Target g policy w s symbol target
  | made : w.store.nodes.size ≤ target → target < s.nodes.size → (s.node target).name = policy.namespaceName →
      (s.node target).kind = .nameSpace → symbol < g.top → EndsIn w.store symbol policy.namespaceName →
      Target g policy w s symbol target

variable {g : Ground} {policy : Policy} {known : OrdMap NodeId Value} {modules rest before : List NodeId}
  {w w₁ w' : Workspace} {s s' : Store} {symbol : SymbolId} {target : NodeId} {job : Job} {start p q : Progress}
  {tried pending : List SymbolId} {rs : Report}

theorem Target.mono (h : Target g policy w s symbol target) (label : target < s.nodes.size →
    target < s'.nodes.size ∧ (s'.node target).name = (s.node target).name ∧
      (s'.node target).kind = (s.node target).kind) : Target g policy w s' symbol target := by
  cases h with
  | old inside way mem => exact .old inside way mem
  | made above below name kind named ends =>
    obtain ⟨below', name', kind'⟩ := label below
    exact .made above below' (name'.trans name) (kind'.trans kind) named ends

/-- A namesake that a module holds is such a target. -/
theorem target_of_namesake (base : Ahead g modules w) (grown : w.store.Outgrows w₁.store policy.namespaceName)
    (symbols : w₁.store.symbols = w.store.symbols) (sound : Sound g w₁) (named : symbol < g.top)
    (found : w₁.namesake? symbol = some target) (held : HeldBy modules w₁.store target) :
    Target g policy w w₁.store symbol target := by
  obtain ⟨x, way, mem, ends⟩ := below_of_namesake sound found
  obtain ⟨m, here, holds⟩ := held
  obtain ⟨extra, eq, new⟩ := grown.children (base.inside here)
  have child : target ∈ w₁.store.children m := List.mem_of_mem_filter (List.contains_iff_mem.1 holds)
  rw [eq] at child
  rcases List.mem_append.1 child with child | child
  · have old : target < w.store.nodes.size := (base.sound.layout.child (base.proper here) child).2.1
    have inside : x < w.store.nodes.size := by
      by_contra outside
      exact absurd old (Nat.not_lt_of_le (grown.fresh (Nat.le_of_not_lt outside) mem))
    obtain ⟨extra', eq', new'⟩ := grown.children inside
    rw [eq'] at mem
    rcases List.mem_append.1 mem with mem | mem
    · exact .old old (way.of_outgrows grown inside) mem
    · exact absurd old (Nat.not_lt_of_le (new' target mem).1)
  · obtain ⟨above, name, kind⟩ := new target child
    refine .made above (declaration_of_namesake sound found).2.1 name kind named ?_
    obtain ⟨text, part, called, last, same⟩ := ends
    refine ⟨text, part, ?_, last, name ▸ same⟩
    rw [← called, Store.symbol, Store.symbol, symbols]

theorem Resolves.aliased_cases (resolves : Resolves job p symbol q) (h : Fits g job p) {pair : SymbolId × NodeId}
    (mem : pair ∈ q.report.aliased) : pair ∈ p.report.aliased ∨ (pair.1 = symbol ∧
      p.workspace.namesake? symbol = some pair.2 ∧ HeldBy job.modules p.workspace.store pair.2 ∧
      q.workspace.nodeOf? symbol = some pair.2) := by
  cases resolves with
  | aliased _ found held quiet =>
    rcases List.mem_append.1 mem with mem | mem
    · exact Or.inl mem
    · rw [List.mem_singleton.1 mem]
      refine Or.inr ⟨rfl, found, held, (quiet.nodeOf? _).trans ?_⟩
      exact (nodeOf?_register h.sound.consistent ..).trans (if_pos rfl)
  | undescribed _ _ _ _ opens =>
    exact Or.inl (by rw [← (opens.prepared h).report]; exact mem)
  | synthesized _ _ _ _ opens =>
    exact Or.inl (by rw [← (opens.prepared h).report]; exact mem)
  | _ => exact Or.inl mem

/-- In the course of a run a symbol that was aliased has the target for its node. -/
theorem Course.aliased (base : Ahead g job.modules w) (passed : Passed g job.policy before w start.workspace)
    (h : Fits g job start) (fresh : start.internal = none) (none : start.report.aliased = [])
    (course : Course job start tried pending p) {pair : SymbolId × NodeId} (mem : pair ∈ p.report.aliased) :
    p.workspace.nodeOf? pair.1 = some pair.2 ∧ Target g job.policy w p.workspace.store pair.1 pair.2 := by
  induction course with
  | start =>
    have mem : pair ∈ start.report.aliased := mem
    rw [none] at mem
    cases mem
  | again _ _ _ ih => exact ih mem
  | @step tried rest symbol p q course resolves ih =>
    have under := (course.underway h fresh).1
    obtain ⟨_, named, unbound⟩ := course.turn h fresh
    have label : ∀ {id}, id < p.workspace.store.nodes.size → _ := resolves.label under.fits named
    rcases resolves.aliased_cases under.fits mem with old | ⟨same, found, held, bound⟩
    · obtain ⟨bound, target⟩ := ih old
      exact ⟨resolves.bound under.fits named unbound bound, target.mono label⟩
    · rw [same]
      refine ⟨bound, Target.mono ?_ label⟩
      exact target_of_namesake base ((passed.outgrows _ fun _ => rfl).trans (under.outgrows _ fun _ => rfl))
        (under.symbols.trans passed.symbols) under.fits.sound named found held

/-- In the course of a pass an aliased symbol keeps its node, if that was there before. -/
theorem Passes.aliased (base : Ahead g modules w) (passes : Passes known policy modules rest w₁ rs w')
    (passed : Passed g policy before w w₁) (sub : ∀ m ∈ rest, m ∈ modules) {r : ModuleReport} (mem : r ∈ rs)
    {pair : SymbolId × NodeId} (listed : pair ∈ r.aliased) :
    (pair.2 < w.store.nodes.size → w'.nodeOf? pair.1 = some pair.2) ∧
      Target g policy w w'.store pair.1 pair.2 := by
  induction passes generalizing before with
  | nil => cases mem
  | clean _ _ ih => exact ih passed (fun m mem => sub m (List.mem_cons_of_mem _ mem)) mem
  | @turn m rest w₁ w₂ w' r' rs _ turn passes ih =>
    have ahead := base.passed passed
    have fits := ahead.fits ⟨m, modules, known.find? m, policy⟩ rfl (sub m List.mem_cons_self)
    have first := turn.passed fits
    have sub' : ∀ m ∈ rest, m ∈ modules := fun m mem => sub m (List.mem_cons_of_mem _ mem)
    rcases List.mem_cons.1 mem with rfl | mem
    · have later := passes.passed (ahead.passed first) sub'
      have grown := later.outgrows policy.namespaceName fun _ => rfl
      obtain @⟨u, p, q, quiet, course, _, settles⟩ := turn
      have fits' := fits.quiet quiet
      have under := (course.underway fits' rfl).1
      have passed' := passed.trans (Passed.quiet ahead.sound quiet policy)
      have old : pair ∈ p.report.aliased := by cases settles <;> exact listed
      obtain ⟨bound, target⟩ := course.aliased base passed' fits' rfl rfl old
      refine ⟨fun inside => ?_, target.mono fun inside => ?_⟩
      · rcases under.settled settles bound with bound | internal
        · exact later.bound bound
        · have above := (under.internal internal).1
          have le := (passed'.outgrows policy.namespaceName fun _ => rfl).size
          exact absurd inside (Nat.not_lt_of_le (Nat.le_trans le above))
      · obtain ⟨size, name, kind⟩ := under.label settles pair.2
        have inside' : pair.2 < (q.workspace.activate Option.none).store.nodes.size := size.symm ▸ inside
        exact ⟨Nat.lt_of_lt_of_le inside' grown.size, (grown.name inside').trans name,
          (grown.kind inside').trans kind⟩
    · exact ih (passed.trans first) sub' mem

/-! ## Faithful pairs -/

/-- A pair that keeps what the report promises: the target was a declaration of the tree before, it is
still in the tree, and the symbol resolves to it. -/
structure Faithful (w w' : Workspace) (symbol : SymbolId) (target : NodeId) : Prop where
  declared : target ∈ w.store.walk w.project ∧ ∃ b, (w.store.node target).body = .declaration b
  kept : target ∈ w'.store.walk w'.project
  resolves : w'.store.resolve (.symbol w'.project symbol) = some target

theorem Faithful.inside (h : Faithful w w' symbol target) : target < w.store.nodes.size := by
  obtain ⟨b, body⟩ := h.declared.2
  by_contra outside
  rw [Store.node_of_size_le (Nat.le_of_not_lt outside)] at body
  cases body

/-- All pairs of a report but those with new targets are faithful. -/
theorem Resolution.faithful (h : Sound g w) (resolution : Resolution policy w rs w') {r : ModuleReport} (mem : r ∈ rs)
    {pair : SymbolId × NodeId} (listed : pair ∈ r.aliased) :
    (pair.2 < w.store.nodes.size → Faithful w w' pair.1 pair.2) ∧ Target g policy w w'.store pair.1 pair.2 := by
  obtain ⟨v, u, quiet, _, passes, cleared⟩ := resolution.turns h
  obtain ⟨bound, target⟩ := passes.aliased h.ahead (Passed.quiet h quiet policy) (fun m mem => mem) mem listed
  rw [← cleared.store] at target
  refine ⟨fun inside => ?_, target⟩
  have passed := resolution.passed h
  have grown := passed.outgrows policy.namespaceName fun _ => rfl
  cases target with
  | made above => exact absurd inside (Nat.not_lt_of_le above)
  | @old x _ way child =>
    have below : w.store.Below w.project pair.2 := h.project ▸ way.tail child
    refine ⟨⟨below.mem_walk inside, ?_⟩, ?_, (cleared.nodeOf? _).trans (bound inside)⟩
    · exact (h.layout.child (way.proper h.layout (Or.inl rfl)) child).2.2.2
    · rw [passed.sound.project, ← h.project]
      exact (below.outgrows grown).mem_walk (Nat.lt_of_lt_of_le inside grown.size)

/-- An alias is faithful if and only if its target was there before the pass. Any other target is a
namespace that the pass made, and the name of the symbol ends in the name of that namespace. -/
theorem faithful_iff {document : Value} (opened : w.Opened document) (ask : w.policy = .ok policy)
    (ok : w.resolve = (.ok (some rs), w')) {r : ModuleReport} (mem : r ∈ rs) (listed : (symbol, target) ∈ r.aliased) :
    (Faithful w w' symbol target ↔ target < w.store.nodes.size) ∧ (w.store.nodes.size ≤ target →
      (w'.store.node target).kind = .nameSpace ∧ (w'.store.node target).name = policy.namespaceName ∧
        EndsIn w.store symbol policy.namespaceName) := by
  obtain ⟨g, ready⟩ := opened.ready
  obtain ⟨faithful, place⟩ := (resolution_of_ok ready.sound ask ok).faithful ready.sound mem listed
  refine ⟨⟨Faithful.inside, faithful⟩, fun above => ?_⟩
  cases place with
  | old inside => exact absurd inside (Nat.not_lt_of_le above)
  | made _ _ name kind _ ends => exact ⟨kind, name, ends⟩

/-- A document in which a symbol that cannot be described comes before one that is named like the
namespaces that a pass makes. -/
def lookalike : Value := .object [
  ("programs", .object [("main", .object [("symbols", .object [
    ("f", .object [("kind", .str "function"), ("signatures", .list [.object [
      ("parameters", .object [("o", .str "Hidden"), ("p", .str "internal")]), ("returns", .str "void")]])]),
    ("Hidden", .object [("kind", .str "interface"), ("opaque", .bool true)]),
    ("internal", .object [("kind", .str "interface")])])])]),
  ("modules", .list [.object [("name", .str "a"), ("program", .str "main"), ("exports", .list [.str "f"])]])]

/-- The workspace that this document leads to. -/
def besideLookalike : Workspace := (withPlugin.load (.str "demo") lookalike).2

theorem opened_lookalike : besideLookalike.Opened lookalike := opened_of_isOk (by decide +kernel)

theorem aliased_lookalike : besideLookalike.store.nodes.size = 6 ∧
    ∃ r, besideLookalike.resolve = (.ok (some [r]), besideLookalike.resolve.2) ∧ (2, 6) ∈ r.aliased := by
  refine ⟨by decide +kernel, ?_⟩
  have pairs : (reportOf besideLookalike.resolve.1).map (·.map (·.aliased)) = some [[(2, 6)]] := by decide +kernel
  obtain ⟨rs, report, eq⟩ := Option.map_eq_some_iff.1 pairs
  obtain ⟨r, rfl, only⟩ := List.map_eq_singleton_iff.1 eq
  exact ⟨r, resolve_of_report report, only ▸ List.mem_singleton_self _⟩

theorem faithful_iff_lookalike : ∃ policy : Policy, besideLookalike.store.nodes.size = 6 ∧
    (Faithful besideLookalike besideLookalike.resolve.2 2 6 ↔ 6 < besideLookalike.store.nodes.size) ∧
      (besideLookalike.store.nodes.size ≤ 6 → (besideLookalike.resolve.2.store.node 6).kind = .nameSpace ∧
        (besideLookalike.resolve.2.store.node 6).name = policy.namespaceName ∧
          EndsIn besideLookalike.store 2 policy.namespaceName) := by
  obtain ⟨g, ready⟩ := opened_lookalike.ready
  obtain ⟨text, linkOnly, ask⟩ := policy_of_configured ready.configured
  obtain ⟨size, r, ok, listed⟩ := aliased_lookalike
  exact ⟨_, size, faithful_iff opened_lookalike ask ok (List.mem_singleton_self r) listed⟩

/-- Not all aliases are faithful. -/
theorem not_faithful_lookalike : ¬∀ (document : Value) (w w' : Workspace) (rs : Report) (r : ModuleReport)
    (symbol : SymbolId) (target : NodeId), w.Opened document → w.resolve = (.ok (some rs), w') → r ∈ rs →
      (symbol, target) ∈ r.aliased → Faithful w w' symbol target := by
  intro all
  obtain ⟨size, r, ok, listed⟩ := aliased_lookalike
  have inside := (all _ _ _ _ r 2 6 opened_lookalike ok (List.mem_singleton_self r) listed).inside
  rw [size] at inside
  exact absurd inside (Nat.lt_irrefl 6)

theorem faithful_of_apart {document : Value} (opened : w.Opened document) (ask : w.policy = .ok policy)
    (apart : Apart (Document.symbolNames document) policy.namespaceName) (ok : w.resolve = (.ok (some rs), w'))
    {r : ModuleReport} (mem : r ∈ rs) (listed : (symbol, target) ∈ r.aliased) : Faithful w w' symbol target := by
  obtain ⟨g, ready⟩ := opened.ready
  obtain ⟨faithful, place⟩ := (resolution_of_ok ready.sound ask ok).faithful ready.sound mem listed
  cases place with
  | old inside => exact faithful inside
  | made _ _ _ _ named ends => exact absurd ends (ready.sound.catalog.not_endsIn (ready.names ▸ apart) named)

end DocTree
