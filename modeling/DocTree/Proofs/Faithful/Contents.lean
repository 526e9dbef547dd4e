import DocTree.Proofs.Convert.Converts

/-!
# What converted symbols become

* `declarationNodes` : a declaration with its type parameters and signatures, as a description says;
* `Widens w scope w'` : of the nodes from before none but the scope changed;
* `Shows w symbol id` : node `id` and those behind it are what the symbol describes, and the children are the nodes
  of its members, in order;
* `Workspace.news w symbols` : the symbols for which declarations would be created, each once;
* `Converts.contents` : conversion puts the nodes of news below its scope, and shows what it converts.
-/

namespace DocTree.Workspace

variable {g : Ground} {w w₁ w' : Workspace} {scope id : NodeId} {symbol : SymbolId} {symbols roots : List SymbolId}
  {d : Description}

/-! ## Declarations -/

def declarationNodes (s : Symbol) (scope id : NodeId) (d : Description) (children : List NodeId) : List Node :=
  ⟨s.name, s.kind, some scope, describedBody d (List.range' (id + 1) d.typeParameters.length)
      (signatureIds ⟨s.name, s.kind, some scope, .declaration {}⟩ id (id + 1 + d.typeParameters.length) d.signatures)
      (.declaration { children := children })⟩
    :: (d.typeParameters.map (typeParameterNode id) ++ signaturesNodes ⟨s.name, s.kind, some scope, .declaration {}⟩ id
      (id + 1 + d.typeParameters.length) d.signatures)

/-- A bare declaration that is filled stands as described. -/
theorem holds_populate (w : Workspace) {s : Symbol} (last : w.store.nodes.size = id + 1)
    (bare : w.store.node id = ⟨s.name, s.kind, some scope, .declaration {}⟩) (d : Description) :
    (w.populate id d).store.Holds id (declarationNodes s scope id d []) ∧
      (w.populate id d).store.nodes.size = id + (declarationNodes s scope id d []).length := by
  have inside : id < w.store.nodes.size := last ▸ Nat.lt_succ_self id
  obtain ⟨w₁, adds, eq⟩ := adds_populate w inside d
  have here : w₁.store.node id = w.store.node id := adds.same inside
  have inside₁ : id < w₁.store.nodes.size := adds.size ▸ Nat.lt_add_right _ inside
  have node := Store.node_modifyBody inside₁ (describedBody d
    (List.range' w.store.nodes.size d.typeParameters.length)
    (signatureIds (w.store.node id) id (w.store.nodes.size + d.typeParameters.length) d.signatures))
  have holds := adds.holds
  have size := adds.size
  rw [here, bare, last] at node
  rw [bare, last] at holds eq size
  rw [eq]
  refine ⟨Store.holds_cons.2 ⟨(node id).trans (if_pos rfl), fun i lt => ?_⟩, ?_⟩
  · rw [node, if_neg (Nat.ne_of_gt (Nat.lt_of_lt_of_le (Nat.lt_succ_self id) (Nat.le_add_right _ i)))]
    exact holds i lt
  · rw [Store.modifyBody, Store.size_modifyNode, size, declarationNodes, List.length_cons, Nat.add_assoc, Nat.add_comm 1]

theorem holds_declare (inside : scope < w.store.nodes.size) (symbol : SymbolId) (d : Description) :
    (w.declare scope symbol d).2.store.Holds w.store.nodes.size
        (declarationNodes (w.store.symbol symbol) scope w.store.nodes.size d []) ∧
      (w.declare scope symbol d).2.store.nodes.size =
        w.store.nodes.size + (declarationNodes (w.store.symbol symbol) scope w.store.nodes.size d []).length := by
  have quiet := quiet_reportForeign w (w.store.symbol symbol)
  have node := fun id => node_create (w := w.reportForeign (w.store.symbol symbol))
    (w.store.symbol symbol).kind (w.store.symbol symbol).name (some symbol) (quiet.store.symm ▸ inside) id
  simp only [quiet.store] at node
  rw [declare_snd]
  refine holds_populate _ ?_ ((node _).trans (if_pos rfl)) d
  rw [size_create, quiet.store]

/-! ## What symbols show -/

/-- The node of a symbol is filled as described, and its children are the nodes of the members. -/
inductive Shows (w : Workspace) (symbol : SymbolId) (id : NodeId) : Prop
  | intro {d : Description} {scope : NodeId} {children : List NodeId} :
      (w.store.symbol symbol).description = some d →
      w.store.Holds id (declarationNodes (w.store.symbol symbol) scope id d children) →
      id + (declarationNodes (w.store.symbol symbol) scope id d children).length ≤ w.store.nodes.size →
      List.Forall₂ (fun member child => w.nodeOf? member = some child) d.members.eraseDups children →
      Shows w symbol id

/-- Of the nodes from before none but the scope changed, and nothing was unbound. -/
structure Widens (w : Workspace) (scope : NodeId) (w' : Workspace) : Prop where
  symbols : w'.store.symbols = w.store.symbols
  size : w.store.nodes.size ≤ w'.store.nodes.size
  same : ∀ {id}, id < w.store.nodes.size → id ≠ scope → w'.store.node id = w.store.node id
  bound : ∀ {symbol id}, w.nodeOf? symbol = some id → w'.nodeOf? symbol = some id

theorem Extends.widens (ext : Extends w scope roots w') : Widens w scope w' :=
  ⟨ext.kept.symbols, ext.size, ext.same, ext.bound⟩

theorem Widens.trans (h : Widens w scope w₁) (h' : Widens w₁ scope w') : Widens w scope w' where
  symbols := h'.symbols.trans h.symbols
  size := Nat.le_trans h.size h'.size
  same := fun inside ne => (h'.same (Nat.lt_of_lt_of_le inside h.size) ne).trans (h.same inside ne)
  bound := fun eq => h'.bound (h.bound eq)

theorem Widens.inner (h : Widens w scope w₁) (new : w.store.nodes.size ≤ id) (h' : Widens w₁ id w') :
    Widens w scope w' where
  symbols := h'.symbols.trans h.symbols
  size := Nat.le_trans h.size h'.size
  same := fun inside ne =>
    (h'.same (Nat.lt_of_lt_of_le inside h.size) (Nat.ne_of_lt (Nat.lt_of_lt_of_le inside new))).trans (h.same inside ne)
  bound := fun eq => h'.bound (h.bound eq)

theorem Widens.holds (widens : Widens w scope w') (behind : scope < id) {ns : List Node}
    (le : id + ns.length ≤ w.store.nodes.size) (holds : w.store.Holds id ns) : w'.store.Holds id ns := by
  intro i lt
  have inside : id + i < w.store.nodes.size := Nat.lt_of_lt_of_le (Nat.add_lt_add_left lt id) le
  rw [widens.same inside (Nat.ne_of_gt (Nat.lt_of_lt_of_le behind (Nat.le_add_right id i)))]
  exact holds i lt

theorem Extends.holds_children (ext : Extends w id roots w') {s : Symbol} {children : List NodeId}
    (le : id + (declarationNodes s scope id d []).length ≤ w.store.nodes.size)
    (holds : w.store.Holds id (declarationNodes s scope id d []))
    (node : w'.store.node id = (w.store.node id).giveChildren children) :
    w'.store.Holds id (declarationNodes s scope id d children) := by
  obtain ⟨here, rest⟩ := Store.holds_cons.1 holds
  refine Store.holds_cons.2 ⟨?_, ext.widens.holds (Nat.lt_succ_self id) ?_ rest⟩
  · rw [node, here]
    rfl
  · exact Nat.le_trans (Nat.le_of_eq (Nat.add_right_comm id 1 _)) le

theorem Shows.later (h : w.Shows symbol id) (widens : Widens w scope w') (behind : scope < id) :
    w'.Shows symbol id := by
  have same : w'.store.symbol symbol = w.store.symbol symbol := by rw [Store.symbol, Store.symbol, widens.symbols]
  cases h with
  | intro described holds le members =>
    rw [← same] at described holds le
    exact .intro described (widens.holds behind le holds) (Nat.le_trans le widens.size)
      (members.imp fun _ _ bound => widens.bound bound)

theorem Shows.activate (h : w.Shows symbol id) (program : Option Value) : (w.activate program).Shows symbol id := by
  cases h with
  | intro described holds le members => exact .intro described holds le members

/-! ## News -/

/-- The symbols for which declarations would be created, each once. -/
def news (w : Workspace) (symbols : List SymbolId) : List SymbolId := (symbols.filter w.wouldCreate).eraseDups

theorem wouldCreate_iff (sound : Sound g w) : w.wouldCreate symbol = true ↔
    w.nodeOf? symbol = none ∧ (w.store.symbol symbol).description.isSome := by
  rw [wouldCreate, sound.declarationOf?_eq, Bool.and_eq_true, Option.isNone_iff_eq_none]

theorem news_members (sound : Sound g w) (described : (w.store.symbol symbol).description = some d)
    (bound : w.nodeOf? symbol = some id) (bare : w.store.children id = []) : w.news d.members = d.members.eraseDups := by
  unfold news
  rw [List.filter_eq_self.2 fun member mem => ?_]
  have owned : member ∈ w.store.membersOf symbol := Store.membersOf_eq described ▸ mem
  obtain ⟨above, below⟩ := sound.catalog.members owned
  refine (wouldCreate_iff sound).2 ⟨Option.eq_none_iff_forall_ne_some.2 fun c here => ?_,
    sound.catalog.described above below⟩
  obtain ⟨id', bound', child⟩ := sound.owner owned here
  cases bound.symm.trans bound'
  rw [bare] at child
  cases child

/-- A symbol that was not converted yet is no news exactly if it is the one that is converted. -/
theorem wouldCreate_after {w_a : Workspace} (hosts : Hosts g w scope (symbol :: symbols)) (sound : Sound g w₁)
    (both : Extends w scope [symbol] w₁) (bound : w₁.nodeOf? symbol = some w.store.nodes.size)
    (inner : Extends w_a w.store.nodes.size roots w₁) (size : w.store.nodes.size < w_a.store.nodes.size)
    (nodeOf? : ∀ other, w_a.nodeOf? other = if other = symbol then some w.store.nodes.size else w.nodeOf? other)
    (children : w₁.store.children scope = w.store.children scope ++ [w.store.nodes.size]) {other : SymbolId}
    (mem : other ∈ symbols) : w₁.wouldCreate other = (!other == symbol && w.wouldCreate other) := by
  have kept : (w₁.store.symbol other).description = (w.store.symbol other).description := by rw [both.kept.symbol]
  rw [Bool.eq_iff_iff, Bool.and_eq_true, wouldCreate_iff sound, wouldCreate_iff hosts.sound, kept, Bool.not_eq_true',
    beq_eq_false_iff_ne]
  constructor
  · rintro ⟨none, some⟩
    refine ⟨?_, Option.eq_none_iff_forall_ne_some.2 fun c here => ?_, some⟩
    · rintro rfl
      cases none.symm.trans bound
    · cases none.symm.trans (both.bound here)
  · rintro ⟨ne, none, some⟩
    refine ⟨Option.eq_none_iff_forall_ne_some.2 fun c here => ?_, some⟩
    have above : w.store.nodes.size < c :=
      Nat.lt_of_lt_of_le size (inner.fresh ((nodeOf? other).trans ((if_neg ne).trans none)) here).1
    rcases hosts.place other (List.mem_cons_of_mem _ mem) with named | ⟨a, owned, at'⟩
    · obtain ⟨_, _, root, only, owns⟩ := both.fresh none here
      rw [List.mem_singleton.1 only] at owns
      rcases Relation.ReflTransGen.cases_tail owns with rfl | ⟨b, _, owned⟩
      · exact ne rfl
      · exact absurd named (Nat.not_lt_of_le (hosts.sound.catalog.members owned).1)
    · obtain ⟨id', bound', child⟩ := sound.owner (Sound.membersOf_congr both.kept.symbols a ▸ owned) here
      cases (both.bound at').symm.trans bound'
      rw [children] at child
      rcases List.mem_append.1 child with old | new
      · have below : c < w.store.nodes.size := (hosts.sound.layout.child hosts.proper old).2.1
        exact absurd below (Nat.not_lt_of_lt above)
      · exact absurd (List.mem_singleton.1 new) (Nat.ne_of_gt above)

/-- Conversion puts the nodes of news below its scope, in order, and shows what it converts. -/
theorem Converts.contents (converts : Converts w scope symbols w') (hosts : Hosts g w scope symbols) :
    (∃ ids, w'.store.node scope = (w.store.node scope).giveChildren ids ∧
      List.Forall₂ (fun symbol id => w'.nodeOf? symbol = some id) (w.news symbols) ids) ∧
      ∀ {symbol id}, w.nodeOf? symbol = none → w'.nodeOf? symbol = some id → w'.Shows symbol id := by
  induction converts with
  | nil w scope =>
    refine ⟨⟨[], (Node.giveChildren_nil _).symm, .nil⟩, fun none some => ?_⟩
    cases none.symm.trans some
  | @known w w' scope id symbol symbols declared _ ih =>
    obtain ⟨⟨ids, node, bound⟩, shows⟩ := ih (hosts.rest hosts.sound ((Quiet.refl w).extends scope))
    refine ⟨⟨ids, node, ?_⟩, shows⟩
    have old : w.wouldCreate symbol = false := by
      rw [wouldCreate, declared]
      rfl
    rwa [news, List.filter_cons_of_neg (by rw [old]; exact Bool.false_ne_true)]
  | @undescribed w w' scope symbol symbols unbound none _ ih =>
    have q := quiet_report w .debug .conversion ((w.store.symbol symbol).display ++ " has no declaration, skipping")
    obtain ⟨⟨ids, node, bound⟩, shows⟩ := ih ((hosts.rest hosts.sound ((Quiet.refl w).extends scope)).quiet q)
    refine ⟨⟨ids, node, ?_⟩, shows⟩
    have silent : w.wouldCreate symbol = false := by
      rw [wouldCreate, none]
      exact Bool.and_false _
    rwa [news, List.filter_cons_of_neg (by rw [silent]; exact Bool.false_ne_true)]
  | @fresh w w₁ w' scope symbol symbols d unbound described members rest ih ih' =>
    rw [hosts.sound.declarationOf?_eq] at unbound
    have q := quiet_announce (w.declare scope symbol d).2 scope w.store.nodes.size
    obtain ⟨first, nodeOf?⟩ := extends_announced hosts unbound described
    have grown := (declared_declare w hosts.inside symbol d).sprouts
    obtain ⟨holds, size⟩ := holds_declare hosts.inside symbol d
    rw [← q.store] at grown holds size
    generalize made : (w.declare scope symbol d).2.announce scope w.store.nodes.size = w_a at *
    have inner : Hosts g w_a w.store.nodes.size d.members :=
      made ▸ (hosts.declared unbound described).quiet (quiet_announce ..)
    have converted := members.spec inner
    have both : Extends w scope [symbol] w₁ := Converted.with_owner hosts unbound described (made ▸ converted)
    have behind : scope < w.store.nodes.size := hosts.inside
    have bound_a : w_a.nodeOf? symbol = some w.store.nodes.size := (nodeOf? symbol).trans (if_pos rfl)
    have bound₁ : w₁.nodeOf? symbol = some w.store.nodes.size := converted.ext.bound bound_a
    have scope₁ : w₁.store.node scope = (w.store.node scope).giveChildren [w.store.nodes.size] := by
      rw [converted.ext.same (Nat.lt_trans behind grown.size) (Nat.ne_of_lt behind), grown.widened]
    obtain ⟨⟨cs, node_a, below⟩, shown⟩ := ih inner
    have hosts₁ := hosts.rest converted.sound both
    have ext := (rest.spec hosts₁).ext
    obtain ⟨⟨ids, node, later⟩, shown'⟩ := ih' hosts₁
    have described_a : (w_a.store.symbol symbol).description = some d := by rw [first.kept.symbol, described]
    have bare : w_a.store.children w.store.nodes.size = [] := by
      rw [Store.children, (Store.holds_cons.1 holds).1]
      rfl
    have shows₁ : w₁.Shows symbol w.store.nodes.size := by
      rw [news_members inner.sound described_a bound_a bare] at below
      have symbols₁ := both.kept.symbol symbol
      refine .intro (symbols₁ ▸ described) (symbols₁ ▸ converted.ext.holds_children size.ge holds node_a) ?_ below
      exact symbols₁ ▸ Nat.le_trans size.ge converted.ext.size
    refine ⟨⟨w.store.nodes.size :: ids, ?_, ?_⟩, fun {other id} none some => ?_⟩
    · rw [node, scope₁, Node.giveChildren_giveChildren]
      rfl
    · have new : w.wouldCreate symbol = true := (wouldCreate_iff hosts.sound).2 ⟨unbound, described ▸ rfl⟩
      have children : w₁.store.children scope = w.store.children scope ++ [w.store.nodes.size] := by
        rw [Store.children, scope₁, Node.giveChildren_body, Body.children_mapChildren hosts.container]
        rfl
      rw [news, List.filter_congr fun other mem => wouldCreate_after hosts converted.sound both bound₁ converted.ext
        grown.size nodeOf? children mem, ← List.filter_filter] at later
      rw [news, List.filter_cons_of_pos new, List.eraseDups_cons]
      exact .cons (ext.bound bound₁) later
    · cases eq : w₁.nodeOf? other with
      | none => exact shown' eq some
      | some id₁ =>
        cases (ext.bound eq).symm.trans some
        by_cases here : other = symbol
        · subst here
          cases bound₁.symm.trans eq
          exact shows₁.later ext.widens behind
        · have none_a := (nodeOf? other).trans ((if_neg here).trans none)
          exact (shown none_a eq).later ext.widens
            (Nat.lt_of_lt_of_le behind (Nat.le_trans (Nat.le_of_lt grown.size) (converted.ext.fresh none_a eq).1))

end DocTree.Workspace
