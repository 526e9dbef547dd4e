import DocTree.Proofs.Resolve.Completeness

/-!
# Which symbols the run of a module resolves

* `Wanted w m symbol` : the symbol is missing in the module `m`, or the declaration of a wanted symbol
  that has to be created mentions it;
* `Resolves.effect` : what a step does to the types in the tree;
* `Course.type`, `Course.declared` : in the course of a run, the types at new nodes are just those in the
  declarations of the symbols for which one was created;
* `Course.wanted`, `Course.tried_of_wanted` : only wanted symbols are tried, and all of them in the end;
* `Course.synthesized` : the declarations that were created, and for which symbols;
* `exhausts_of_comesTo` : all this for any module of a document when its turn comes.
-/

namespace DocTree

open Workspace

def Store.Mentions (s : Store) (project : NodeId) (a b : SymbolId) : Prop :=
  ∃ t, s.Declares a t ∧ (Link.symbol project b ∈ t.links ∨
    ∃ i ∈ t.inlines, ∃ id, s.Reaches i id ∧ Link.symbol project b ∈ (s.node id).links)

/-- Whether a declaration has to be created for a symbol: it is no default export, the project knows no
node of its name, and it can be described. -/
def Workspace.isCreated (w : Workspace) (symbol : SymbolId) : Bool :=
  !(w.store.symbol symbol).isDefaultExport && (w.namesake? symbol).isNone && (w.store.symbol symbol).description.isSome

/-- The symbols that a module wants: those that are missing in it, and those without a node that are
mentioned where a declaration has to be created for a wanted symbol. -/
inductive Wanted (w : Workspace) (m : NodeId) : SymbolId → Prop
  | missing {symbol : SymbolId} : symbol ∈ w.store.missing m → Wanted w m symbol
  | mentioned {a b : SymbolId} : Wanted w m a → w.isCreated a = true → w.store.Mentions w.project a b →
      w.nodeOf? b = none → Wanted w m b

/-- No part of a name is the label. -/
def Avoids (names : List String) (label : Value) : Prop :=
  ∀ name ∈ names, ∀ part ∈ Text.parts '.' name, label ≠ .str part

theorem avoids_str {names : List String} {text : String} :
    Avoids names (.str text) ↔ ∀ name ∈ names, text ∉ Text.parts '.' name :=
  ⟨fun avoids name mem here => avoids name mem text here rfl, fun avoids name mem _ here same =>
    avoids name mem (Value.str.inj same ▸ here)⟩

theorem Avoids.apart {names : List String} {label : Value} (h : Avoids names label) : Apart names label :=
  fun name mem part last => h name mem part (List.mem_of_getLast? last)

variable {g : Ground} {policy : Policy} {w w' u v : Workspace} {symbol : SymbolId} {id : NodeId} {job : Job}
  {start p q : Progress} {tried pending : List SymbolId} {t : Ty}

/-! ## Lookups -/

theorem namesake?_outgrows (h : Sound g w) (project : w'.project = w.project)
    (symbols : w'.store.symbols = w.store.symbols) {label : Value} (grown : w.store.Outgrows w'.store label)
    (avoids : Avoids g.names label) (named : symbol < g.top) : w'.namesake? symbol = w.namesake? symbol := by
  obtain ⟨_, name, mem, called⟩ := h.catalog.named named
  have same : w'.store.symbol symbol = w.store.symbol symbol := by rw [Store.symbol, Store.symbol, symbols]
  unfold Workspace.namesake?
  simp only [same, called, project, h.project]
  exact Store.findInProject_outgrows h.layout grown (avoids name mem)

theorem Underway.namesake? (h : Underway g job start.workspace tried p) (sound : Sound g start.workspace)
    {label : Value} (called : job.policy.linkOnly = false → job.policy.namespaceName = label)
    (avoids : Avoids g.names label) (named : symbol < g.top) :
    p.workspace.namesake? symbol = start.workspace.namesake? symbol :=
  namesake?_outgrows sound (h.fits.sound.project.trans sound.project.symm) h.symbols (h.outgrows label called) avoids
    named

theorem Underway.isCreated (h : Underway g job start.workspace tried p) (sound : Sound g start.workspace)
    (avoids : Avoids g.names job.policy.namespaceName) (named : symbol < g.top) :
    p.workspace.isCreated symbol = start.workspace.isCreated symbol := by
  unfold Workspace.isCreated
  rw [h.namesake? sound (fun _ => rfl) avoids named, Store.symbol, Store.symbol, h.symbols]

/-! ## Steps -/

/-- What a step does to the types in the tree, and to the list of declarations created. -/
structure Effect (job : Job) (p : Progress) (symbol : SymbolId) (q : Progress) : Prop where
  grows : p.workspace.store.Grows q.workspace.store
  node : ∀ {id c}, Part.node c ∈ (q.workspace.store.node id).parts →
    Part.node c ∈ (p.workspace.store.node id).parts ∨ p.workspace.store.nodes.size ≤ c
  type : ∀ {id t}, Part.type t ∈ (q.workspace.store.node id).parts → Part.type t ∈ (p.workspace.store.node id).parts ∨
    (p.workspace.isCreated symbol = true ∧ p.workspace.store.Declares symbol t)
  declared : p.workspace.isCreated symbol = true → ∀ {t}, p.workspace.store.Declares symbol t →
    ∃ scope id, q.internal = some scope ∧ q.workspace.store.Reaches scope id ∧
      Part.type t ∈ (q.workspace.store.node id).parts
  synthesized : if p.workspace.isCreated symbol = true then
      ∃ id, p.workspace.store.nodes.size ≤ id ∧ q.workspace.nodeOf? symbol = some id ∧
        q.report.synthesized = p.report.synthesized ++ [id]
    else q.report.synthesized = p.report.synthesized

/-- A step that leaves the nodes alone has no effect. -/
theorem Effect.of_same (nodes : ∀ id, q.workspace.store.node id = p.workspace.store.node id)
    (none : p.workspace.isCreated symbol = false) (same : q.report.synthesized = p.report.synthesized) :
    Effect job p symbol q where
  grows := fun id part mem => (nodes id).symm ▸ mem
  node := fun {id c} mem => Or.inl (nodes id ▸ mem)
  type := fun {id t} mem => Or.inl (nodes id ▸ mem)
  declared := fun created => by
    rw [none] at created
    cases created
  synthesized := by rwa [if_neg (by rw [none]; exact nofun)]

/-- What a step does to the types in the tree, as long as declarations may be created. -/
theorem Resolves.effect (resolves : Resolves job p symbol q) (h : Fits g job p) (creates : job.policy.linkOnly = false)
    (named : symbol < g.top) (unbound : p.workspace.nodeOf? symbol = none) : Effect job p symbol q := by
  cases resolves with
  | skipped isDefault => exact .of_same (fun _ => rfl) (by simp [Workspace.isCreated, isDefault]) rfl
  | dropped _ found _ quiet =>
    exact .of_same (fun _ => by rw [quiet.store]) (by simp [Workspace.isCreated, found]) rfl
  | aliased _ found _ quiet =>
    exact .of_same (fun _ => by rw [quiet.store, node_register]) (by simp [Workspace.isCreated, found]) rfl
  | unresolved _ _ linkOnly =>
    rw [creates] at linkOnly
    cases linkOnly
  | @undescribed id q w proper unknown _ _ opens undescribed quiet =>
    obtain ⟨v, store, ext⟩ := opens.extends h
    have none : p.workspace.isCreated symbol = false := by simp [Workspace.isCreated, undescribed]
    constructor
    · exact quiet.store.symm ▸ store ▸ ext.grows
    · exact fun mem => store ▸ ext.node (quiet.store ▸ mem)
    · intro id t mem
      rcases ext.type (quiet.store ▸ mem) with old | ⟨_, _, here, _⟩
      · exact Or.inl (store ▸ old)
      · cases here
    · exact fun created => absurd created (by rw [none]; exact nofun)
    · rw [if_neg (by rw [none]; exact nofun), (opens.prepared h).report]
  | @synthesized id q d w₁ w proper unknown _ _ opens described converts quiet =>
    obtain ⟨v, store, ext⟩ := opens.extends h
    have prepared := opens.prepared h
    have hosts := prepared.hosts named
    have spec := converts.spec hosts
    have created : p.workspace.isCreated symbol = true := by simp [Workspace.isCreated, proper, unknown, described]
    have unbound' : q.workspace.nodeOf? symbol = none := (prepared.nodeOf? symbol).trans unbound
    have described' : (q.workspace.store.symbol symbol).description.isSome := by
      rw [Store.symbol, prepared.symbols, ← Store.symbol, described]
      rfl
    constructor
    · exact quiet.store.symm ▸ (store ▸ ext.grows : p.workspace.store.Grows q.workspace.store).trans spec.ext.grows
    · intro id c mem
      rcases spec.ext.node (quiet.store ▸ mem) with old | new
      · exact store ▸ ext.node old
      · exact Or.inr (Nat.le_trans prepared.size_le new)
    · intro id t mem
      rcases spec.ext.type (quiet.store ▸ mem) with old | ⟨_, root, here, declares⟩
      · rcases ext.type old with old | ⟨_, _, here, _⟩
        · exact Or.inl (store ▸ old)
        · cases here
      · rw [List.mem_singleton] at here
        subst here
        exact Or.inr ⟨created, Store.Declares.congr prepared.symbols declares⟩
    · intro _ t declares
      obtain ⟨id', way, held⟩ := spec.declares hosts.sound unbound' described'
        (Store.Declares.congr prepared.symbols.symm declares)
      exact ⟨id, id', prepared.internal, quiet.store.symm ▸ way, quiet.store.symm ▸ held⟩
    · rw [if_pos created]
      refine ⟨_, prepared.size_le, (quiet.nodeOf? _).trans (converts.nodeOf?_eq hosts unbound' described'), ?_⟩
      rw [prepared.report]

/-! ## The types at new nodes -/

theorem Catalog.improper {s : Store} (h : Catalog g s) (declares : s.Declares symbol t) {i : NodeId}
    (inline : i ∈ t.inlines) : ¬g.Proper i := by
  obtain ⟨_, d, _, described, mem⟩ := declares
  obtain ⟨below, ne⟩ := (h.types described mem).inlines inline
  exact fun proper => proper.elim ne (Nat.not_le_of_lt below)

/-- A run begins in which declarations may be created, in a namespace that no lookup can meet. -/
structure Begins (g : Ground) (job : Job) (start : Progress) : Prop where
  fits : Fits g job start
  fresh : start.internal = none
  creates : job.policy.linkOnly = false
  avoids : Avoids g.names job.policy.namespaceName

namespace Course

theorem effect (h : Begins g job start) (course : Course job start tried (symbol :: pending) p)
    (resolves : Resolves job p symbol q) :
    Effect job p symbol q ∧ p.workspace.isCreated symbol = start.workspace.isCreated symbol := by
  have under := (course.underway h.fits h.fresh).1
  obtain ⟨_, named, unbound⟩ := course.turn h.fits h.fresh
  exact ⟨resolves.effect under.fits h.creates named unbound, under.isCreated h.fits.sound h.avoids named⟩

/-- A new node holds new nodes only. -/
theorem node (h : Begins g job start) (course : Course job start tried pending p) {c : NodeId}
    (outside : start.workspace.store.nodes.size ≤ id) (mem : Part.node c ∈ (p.workspace.store.node id).parts) :
    start.workspace.store.nodes.size ≤ c := by
  induction course with
  | start =>
    have mem : Part.node c ∈ (start.workspace.store.node id).parts := mem
    rw [Store.parts_of_size_le outside] at mem
    cases mem
  | again _ _ _ ih => exact ih mem
  | step course resolves ih =>
    rcases (course.effect h resolves).1.node mem with old | new
    · exact ih old
    · exact Nat.le_trans (course.underway h.fits h.fresh).1.size_le new

/-- A type at a new node stands in the declaration of a tried symbol for which one was created. -/
theorem type (h : Begins g job start) (course : Course job start tried pending p)
    (outside : start.workspace.store.nodes.size ≤ id) (mem : Part.type t ∈ (p.workspace.store.node id).parts) :
    ∃ symbol ∈ tried, start.workspace.isCreated symbol = true ∧ start.workspace.store.Declares symbol t := by
  induction course with
  | start =>
    have mem : Part.type t ∈ (start.workspace.store.node id).parts := mem
    rw [Store.parts_of_size_le outside] at mem
    cases mem
  | again _ _ _ ih => exact ih mem
  | @step tried rest symbol p q course resolves ih =>
    obtain ⟨effect, same⟩ := course.effect h resolves
    rcases effect.type mem with old | ⟨created, declares⟩
    · obtain ⟨symbol', tried', rest⟩ := ih old
      exact ⟨symbol', List.mem_append_left _ tried', rest⟩
    · refine ⟨symbol, List.mem_append_right _ (List.mem_singleton_self _), same ▸ created, ?_⟩
      exact declares.congr (course.underway h.fits h.fresh).1.symbols

/-- The types in the declaration of a tried symbol for which one was created stand in the namespace. -/
theorem declared (h : Begins g job start) (course : Course job start tried pending p) (mem : symbol ∈ tried)
    (created : start.workspace.isCreated symbol = true) (declares : start.workspace.store.Declares symbol t) :
    ∃ scope id, p.internal = some scope ∧ p.workspace.store.Reaches scope id ∧
      Part.type t ∈ (p.workspace.store.node id).parts := by
  induction course with
  | start => cases mem
  | again _ _ _ ih => exact ih mem
  | @step tried rest symbol' p q course resolves ih =>
    obtain ⟨effect, same⟩ := course.effect h resolves
    rcases List.mem_append.1 mem with mem | mem
    · obtain ⟨scope, id, internal, way, held⟩ := ih mem
      exact ⟨scope, id, resolves.internal internal, effect.grows.reaches way, effect.grows _ _ held⟩
    · rw [List.mem_singleton] at mem
      subst mem
      exact effect.declared (same ▸ created) (declares.congr (course.underway h.fits h.fresh).1.symbols.symm)

/-! ## Wanted symbols -/

theorem node_inline (h : Begins g job start) (course : Course job start tried pending p) {i : NodeId}
    (improper : ¬g.Proper i) (way : start.workspace.store.Reaches i id) :
    p.workspace.store.node id = start.workspace.store.node id := by
  have improper := h.fits.sound.layout.improper_of_reaches way improper
  have inside := Nat.lt_of_lt_of_le (Layout.lt_base_of_improper improper) h.fits.sound.layout.base_le
  refine (course.underway h.fits h.fresh).1.same inside fun here => improper ?_
  exact here ▸ h.fits.proper

/-- Whatever is referred to in the namespace is mentioned where a declaration was created. -/
theorem mentioned (h : Begins g job start) (course : Course job start tried pending p) {scope : NodeId}
    (internal : p.internal = some scope) (way : p.workspace.store.Reaches scope id)
    (link : Link.symbol g.project symbol ∈ (p.workspace.store.node id).links) :
    ∃ a ∈ tried, start.workspace.isCreated a = true ∧ start.workspace.store.Mentions g.project a symbol := by
  have under := (course.underway h.fits h.fresh).1
  have place : start.workspace.store.nodes.size ≤ id ∨ ∃ a ∈ tried, start.workspace.isCreated a = true ∧
      ∃ t i, start.workspace.store.Declares a t ∧ i ∈ t.inlines ∧ start.workspace.store.Reaches i id := by
    clear link
    induction way with
    | refl => exact Or.inl (under.internal internal).1
    | @tail x y _ step ih =>
      rcases ih with outside | ⟨a, mem, created, t, i, declares, inline, way⟩
      · rcases Node.mem_successors.1 step with held | ⟨t, held, inline⟩
        · exact Or.inl (course.node h outside held)
        · obtain ⟨a, mem, created, declares⟩ := course.type h outside held
          exact Or.inr ⟨a, mem, created, t, y, declares, inline, .refl y⟩
      · rw [course.node_inline h (h.fits.sound.catalog.improper declares inline) way] at step
        exact Or.inr ⟨a, mem, created, t, i, declares, inline, way.trans (.single step)⟩
  rcases place with outside | ⟨a, mem, created, t, i, declares, inline, way⟩
  · obtain ⟨t, held, inside⟩ := Node.mem_links.1 link
    obtain ⟨a, mem, created, declares⟩ := course.type h outside held
    exact ⟨a, mem, created, t, declares, Or.inl inside⟩
  · rw [course.node_inline h (h.fits.sound.catalog.improper declares inline) way] at link
    exact ⟨a, mem, created, t, declares, Or.inr ⟨i, inline, _, way, link⟩⟩

/-- Only wanted symbols are tried. -/
theorem wanted (h : Begins g job start) (course : Course job start tried pending p) :
    ∀ symbol ∈ tried ++ pending, Wanted start.workspace job.module symbol := by
  induction course with
  | start => exact fun symbol mem => .missing mem
  | @again tried next p course eq _ ih =>
    intro symbol mem
    have under := (course.underway h.fits h.fresh).1
    rw [List.append_nil] at ih
    rcases List.mem_append.1 mem with mem | mem
    · exact ih symbol mem
    · obtain ⟨_, _, scope, internal, missing⟩ := (mem_untried symbol under.fits.sound eq).2.1 mem
      obtain ⟨⟨id, way, link⟩, none⟩ := under.fits.sound.mem_missing_iff.1 missing
      obtain ⟨a, mem, created, mentions⟩ := course.mentioned h internal way link
      refine .mentioned (ih a mem) created (h.fits.sound.project.symm ▸ mentions) ?_
      exact Option.eq_none_iff_forall_ne_some.2 fun id bound => by
        rw [under.bound bound] at none
        cases none
  | step _ _ ih =>
    intro symbol mem
    rw [List.append_assoc] at mem
    exact ih symbol mem

theorem referred (h : Begins g job start) (course : Course job start tried pending p) {a : SymbolId} (mem : a ∈ tried)
    (created : start.workspace.isCreated a = true) (mentions : start.workspace.store.Mentions g.project a symbol) :
    ∃ scope id, p.internal = some scope ∧ p.workspace.store.Reaches scope id ∧
      Link.symbol g.project symbol ∈ (p.workspace.store.node id).links := by
  obtain ⟨t, declares, inside⟩ := mentions
  obtain ⟨scope, id, internal, way, held⟩ := course.declared h mem created declares
  rcases inside with inside | ⟨i, inline, id', way', link⟩
  · exact ⟨scope, id, internal, way, Node.mem_links.2 ⟨t, held, inside⟩⟩
  · have improper := h.fits.sound.catalog.improper declares inline
    refine ⟨scope, id', internal, (way.trans (.single ?_)).trans (way'.congr fun x way => ?_), ?_⟩
    · exact Node.mem_successors.2 (Or.inr ⟨t, held, inline⟩)
    · exact course.node_inline h improper way
    · rwa [course.node_inline h improper way']

/-- All wanted symbols are tried in the end. -/
theorem tried_of_wanted (h : Begins g job start) (course : Course job start tried [] p)
    (done : job.untried tried p = .ok []) (wanted : Wanted start.workspace job.module symbol) : symbol ∈ tried := by
  have under := (course.underway h.fits h.fresh).1
  induction wanted with
  | @missing symbol mem =>
    have covered := course.covers symbol mem
    rwa [List.append_nil] at covered
  | @mentioned a symbol _ created mentions none ih =>
    rw [h.fits.sound.project] at mentions
    obtain ⟨scope, id, internal, way, link⟩ := course.referred h ih created mentions
    cases bound : p.workspace.nodeOf? symbol with
    | none =>
      -- The symbol is missing in the namespace, which would be searched again.
      by_contra untried
      have missing := under.fits.sound.mem_missing_iff.2 ⟨⟨id, way, link⟩, bound⟩
      exact nomatch (mem_untried symbol under.fits.sound done).2.2 ⟨h.creates, untried, scope, internal, missing⟩
    | some id' =>
      rcases under.fresh bound with before | tried | member
      · rw [none] at before
        cases before
      · exact tried
      · obtain ⟨t, held, inside⟩ := Node.mem_links.1 link
        rcases (under.fits.sound.layout.type held).links inside with eq | ⟨symbol', named, eq⟩
        · cases eq
        · cases eq
          exact absurd named (Nat.not_lt_of_le member)

end Course

/-! ## Created declarations -/

/-- The declarations created in the course of a run: one for each tried symbol that needs one. -/
theorem Course.synthesized (h : Begins g job start) (blank : start.report.synthesized = [])
    (course : Course job start tried pending p) :
    p.report.synthesized.map some = (tried.filter start.workspace.isCreated).map p.workspace.nodeOf? ∧
      p.report.synthesized.Nodup ∧ ∀ id ∈ p.report.synthesized, start.workspace.store.nodes.size ≤ id := by
  induction course with
  | start =>
    rw [show (Job.nextRound start).report.synthesized = [] from blank]
    exact ⟨rfl, List.nodup_nil, List.forall_mem_nil _⟩
  | again _ _ _ ih => exact ih
  | @step tried rest symbol p q course resolves ih =>
    obtain ⟨listed, nodup, new⟩ := ih
    obtain ⟨effect, same⟩ := course.effect h resolves
    have under := (course.underway h.fits h.fresh).1
    obtain ⟨_, named, unbound⟩ := course.turn h.fits h.fresh
    have bound : ∀ id ∈ p.report.synthesized, ∃ symbol, p.workspace.nodeOf? symbol = some id := by
      intro id mem
      have mem := listed ▸ List.mem_map_of_mem mem
      obtain ⟨symbol, _, eq⟩ := List.mem_map.1 mem
      exact ⟨symbol, eq⟩
    have kept : (tried.filter start.workspace.isCreated).map q.workspace.nodeOf? = p.report.synthesized.map some := by
      rw [listed]
      refine List.map_congr_left fun symbol' mem => ?_
      have mem := listed.symm ▸ List.mem_map_of_mem mem
      obtain ⟨id, _, eq⟩ := List.mem_map.1 mem
      rw [← eq]
      exact resolves.bound under.fits named unbound eq.symm
    have effect := effect.synthesized
    rw [same] at effect
    rw [List.filter_append, List.map_append, kept]
    split at effect
    · rename_i created
      obtain ⟨id, above, eq, more⟩ := effect
      rw [more, List.filter_cons_of_pos created, List.map_append, List.map_singleton, List.filter_nil,
        List.map_singleton, eq]
      refine ⟨rfl, List.nodup_append.2 ⟨nodup, List.nodup_singleton _, fun a mem b mem' eq => ?_⟩, fun id' mem => ?_⟩
      · obtain ⟨symbol', bound⟩ := bound a mem
        rw [eq, List.mem_singleton.1 mem'] at bound
        exact absurd (under.fits.sound.bound bound).2.1 (Nat.not_lt_of_le above)
      · rcases List.mem_append.1 mem with mem | mem
        · exact new id' mem
        · exact List.mem_singleton.1 mem ▸ Nat.le_trans under.size_le above
    · rename_i other
      rw [effect, List.filter_cons_of_neg other, List.filter_nil, List.map_nil, List.append_nil]
      exact ⟨rfl, nodup, new⟩

/-! ## Runs -/

/-- A run from `start` ends in `q` after it resolved all wanted symbols, each once, and no others, in no
more rounds than there are such symbols; and it has created declarations just for those that need one. -/
structure Exhausts (job : Job) (start q : Progress) : Prop where
  ran : job.run (start.workspace.store.missing job.module) start = .ok () q
  performed : (do job.perform (job.plan start); Job.settle : Job.Step Unit) start = .ok () q
  nodup : (job.calls start).Nodup
  wanted : ∀ symbol, symbol ∈ job.calls start ↔ Wanted start.workspace job.module symbol
  rounds : q.report.rounds ≤ (job.calls start).length
  synthesized : q.report.synthesized.map some =
    ((job.calls start).filter start.workspace.isCreated).map q.workspace.nodeOf?
  distinct : q.report.synthesized.Nodup
  new : ∀ id ∈ q.report.synthesized, start.workspace.store.nodes.size ≤ id ∧
    ∃ b, (q.workspace.store.node id).body = .declaration b

/-- Where nothing is missing, nothing is done. -/
theorem exhausts_of_clean (fresh : start.internal = none) (blank : start.report = { module := job.module })
    (clean : start.workspace.store.missing job.module = []) : Exhausts job start start := by
  have ran : job.run (start.workspace.store.missing job.module) start = .ok () start := by
    rw [clean]
    show Job.settle start = _
    obtain ⟨w, report, internal⟩ := start
    obtain rfl : internal = none := fresh
    rfl
  have plan : job.plan start = [] := by
    unfold Job.plan
    rw [clean]
    rfl
  have calls : job.calls start = [] := by rw [Job.calls, plan, List.flatten_nil]
  refine ⟨ran, perform_plan ran, calls ▸ List.nodup_nil, fun symbol => ?_, ?_, ?_, ?_, ?_⟩
  · rw [calls]
    refine ⟨nofun, fun wanted => ?_⟩
    induction wanted with
    | missing mem => exact clean ▸ mem
    | mentioned _ _ _ _ ih => cases ih
  · rw [blank]
    exact Nat.zero_le _
  · rw [calls, blank]
    rfl
  · rw [blank]
    exact List.nodup_nil
  · rw [blank]
    exact nofun

/-- A run exhausts what its module wants, if the module comes from a program. -/
theorem run_exhausts (h : Begins g job start) (blank : start.report = { module := job.module })
    (known : start.workspace.store.missing job.module ≠ [] → job.program.isSome) : ∃ q, Exhausts job start q := by
  by_cases clean : start.workspace.store.missing job.module = []
  · exact ⟨start, exhausts_of_clean h.fresh blank clean⟩
  · have met := run_meets h.fits h.fresh clean
    cases ran : job.run (start.workspace.store.missing job.module) start with
    | error e q =>
      obtain ⟨_, _, _, _, _, breaks⟩ := met.of_error ran
      have known := known clean
      rw [breaks.stuck.program] at known
      cases known
    | ok _ q =>
      obtain ⟨p, course, done, settles⟩ := met.of_ok ran
      obtain ⟨under, nodup, named⟩ := course.underway h.fits h.fresh
      rw [List.append_nil] at nodup named
      obtain ⟨listed, distinct, new⟩ := course.synthesized h (by rw [blank])
      have report : q.report.rounds = p.report.rounds ∧ q.report.synthesized = p.report.synthesized := by
        cases settles <;> exact ⟨rfl, rfl⟩
      have rounds := course.rounds_le (by rw [blank]) clean
      have kept : ∀ {symbol id}, symbol ∈ (job.calls start).filter start.workspace.isCreated →
          p.workspace.nodeOf? symbol = some id → q.workspace.nodeOf? symbol = some id := by
        intro symbol id mem bound
        rcases under.settled settles bound with bound | internal
        · exact bound
        · have ends := course.endsIn h.fits h.fresh internal bound
          have named := (named symbol (List.mem_of_mem_filter mem)).1
          exact absurd ends (h.fits.sound.catalog.not_endsIn h.avoids.apart named)
      have nodes : ∀ id ∈ p.report.synthesized, ∃ symbol ∈ (job.calls start).filter start.workspace.isCreated,
          p.workspace.nodeOf? symbol = some id := by
        intro id mem
        exact List.mem_map.1 (listed ▸ List.mem_map_of_mem mem)
      refine ⟨q, ran, perform_plan ran, nodup, fun symbol => ⟨fun mem => ?_, course.tried_of_wanted h done⟩, ?_, ?_, ?_, ?_⟩
      · exact course.wanted h symbol (List.mem_append_left _ mem)
      · rw [report.1]
        exact rounds
      · rw [report.2, listed]
        refine List.map_congr_left fun symbol mem => ?_
        obtain ⟨id, _, eq⟩ := List.mem_map.1 (listed.symm ▸ List.mem_map_of_mem mem)
        rw [← eq]
        exact (kept mem eq.symm).symm
      · exact report.2.symm ▸ distinct
      · intro id mem
        rw [report.2] at mem
        obtain ⟨symbol, here, bound⟩ := nodes id mem
        have sound : Sound g (q.workspace.activate none) := (under.passed h.fits.sound settles).sound
        have bound : (q.workspace.activate none).nodeOf? symbol = some id := kept here bound
        exact ⟨new id mem, (sound.bound bound).2.2⟩

/-! ## Modules of a document -/

/-- The pass that starts in `w` has come to the module `m` in `u`. -/
def ComesTo (w : Workspace) (policy : Policy) (m : NodeId) (u : Workspace) : Prop :=
  w.policy = .ok policy ∧ ∃ before after rs, w.modules = before ++ m :: after ∧
    resolveModules w.known policy w.modules before
      (w.report .info .options ("resolving project " ++ (w.store.node w.project).name.display)) = (.ok rs, u)

/-- When the turn of any module comes, its run exhausts what the module wants, provided that
declarations may be created, in namespaces whose name is no part of the name of a symbol. -/
theorem exhausts_of_comesTo {document label : Value} {m : NodeId} (opened : w.Opened document)
    (modular : Document.HasModules document) (avoids : Avoids (Document.symbolNames document) label)
    (comes : ComesTo w ⟨label, false⟩ m u) :
    let job : Job := ⟨m, w.modules, w.known.find? m, ⟨label, false⟩⟩
    ∃ q, Exhausts job (job.opening u) q ∧
      u.resolveModule job (u.store.missing m) = (.ok q.report, q.workspace.activate none) := by
  intro job
  obtain ⟨g, ready⟩ := opened.ready
  obtain ⟨_, before, after, rs, eq, ok⟩ := comes
  have quiet := quiet_report w .info .options ("resolving project " ++ (w.store.node w.project).name.display)
  have ahead := ready.sound.ahead_of_quiet quiet
  have sub : ∀ m ∈ before, m ∈ w.modules := fun m mem => eq ▸ List.mem_append_left _ mem
  have passes := passes_of_ok ahead sub ok
  have fits := (ahead.passed (passes.passed ahead sub)).fits job rfl (eq ▸ List.mem_append_right _ List.mem_cons_self)
  have opening : Quiet u (job.opening u).workspace := quiet_report ..
  have known : u.store.missing m ≠ [] → job.program.isSome :=
    (ready.modular modular).known_of_missing ready.sound quiet eq passes
  have begins : Begins g job (job.opening u) := ⟨fits.quiet opening, rfl, rfl, ready.names ▸ avoids⟩
  obtain ⟨q, exhausts⟩ := run_exhausts begins rfl known
  refine ⟨q, exhausts, ?_⟩
  rw [resolveModule_eq u job, show job.run (u.store.missing job.module) _ = _ from exhausts.ran]

/-- The pass over the document with something left comes to its only module. -/
theorem exhausts_of_comesTo_leftover : besideLeftover.modules = [1] ∧ ∃ u,
    ComesTo besideLeftover ⟨.str "internal", false⟩ 1 u ∧
      let job : Job := ⟨1, besideLeftover.modules, besideLeftover.known.find? 1, ⟨.str "internal", false⟩⟩
      ∃ q, Exhausts job (job.opening u) q ∧
        u.resolveModule job (u.store.missing 1) = (.ok q.report, q.workspace.activate none) := by
  have modules : besideLeftover.modules = [1] := by decide +kernel
  have comes : ∃ u, ComesTo besideLeftover ⟨.str "internal", false⟩ 1 u :=
    ⟨_, policy_leftover, [], [], [], modules, rfl⟩
  obtain ⟨u, comes⟩ := comes
  exact ⟨modules, u, comes, exhausts_of_comesTo opened_leftover ⟨_, _, rfl, rfl⟩
    (avoids_str.2 (by decide +kernel)) comes⟩

end DocTree
