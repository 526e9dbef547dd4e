import DocTree.Proofs.Convert.Spawns

/-!
# Conversion with all members

* `Store.Owns s a b` : `b` is `a` or a member of it, or of a member, and so on;
* `Extends w scope roots w'` : `w'` comes from `w` by putting declarations of what `roots` own below
  `scope`; `Extends.trans`, `Extends.inner`, `extends_declare`;
* `Hosts g w scope symbols` : a scope of a sound workspace where symbols may be converted; `Converts.spec` : conversion
  there keeps the workspace sound, extends it, and leaves no member out;
* `converts_convertIn`, `convert_eq` : what `convertIn` and `convert` do there;
* `Tracked g w` : the modules known to come from a program are those that hold anything;
  `Converts.tracked` : conversion keeps it so.
-/

namespace DocTree

def Store.Owns (s : Store) : SymbolId → SymbolId → Prop :=
  Relation.ReflTransGen fun a b => b ∈ s.membersOf a

theorem Store.Owns.congr {s t : Store} (same : t.symbols = s.symbols) {a b : SymbolId} (owns : t.Owns a b) :
    s.Owns a b := by
  refine Relation.ReflTransGen.mono (fun x y step => ?_) _ _ owns
  have eq : t.membersOf x = s.membersOf x := by
    unfold membersOf Store.symbol
    rw [same]
  exact eq ▸ step

def Store.Declares (s : Store) (symbol : SymbolId) (t : Ty) : Prop :=
  ∃ member d, s.Owns symbol member ∧ (s.symbol member).description = some d ∧ t ∈ d.types

theorem Store.Declares.congr {s s' : Store} (same : s'.symbols = s.symbols) {symbol : SymbolId} {t : Ty}
    (declares : s'.Declares symbol t) : s.Declares symbol t := by
  obtain ⟨member, d, owns, described, mem⟩ := declares
  refine ⟨member, d, owns.congr same, ?_, mem⟩
  rw [← described, Store.symbol, Store.symbol, same]

namespace Workspace

/-! ## Extensions -/

/-- Declarations of what some symbols own were put below a scope. -/
structure Extends (w : Workspace) (scope : NodeId) (roots : List SymbolId) (w' : Workspace) : Prop where
  kept : Kept w w'
  size : w.store.nodes.size ≤ w'.store.nodes.size
  grows : w.store.Grows w'.store
  bound : ∀ {symbol id}, w.nodeOf? symbol = some id → w'.nodeOf? symbol = some id
  same : ∀ {id}, id < w.store.nodes.size → id ≠ scope → w'.store.node id = w.store.node id
  widened : ∃ ids, (∀ c ∈ ids, w.store.nodes.size ≤ c) ∧
    w'.store.node scope = (w.store.node scope).giveChildren ids
  type : ∀ {id t}, Part.type t ∈ (w'.store.node id).parts → Part.type t ∈ (w.store.node id).parts ∨
    (w.store.nodes.size ≤ id ∧ ∃ root ∈ roots, ∃ symbol d, w.store.Owns root symbol ∧
      (w.store.symbol symbol).description = some d ∧ t ∈ d.types)
  node : ∀ {id c}, Part.node c ∈ (w'.store.node id).parts →
    Part.node c ∈ (w.store.node id).parts ∨ w.store.nodes.size ≤ c
  fresh : ∀ {symbol id}, w.nodeOf? symbol = none → w'.nodeOf? symbol = some id →
    w.store.nodes.size ≤ id ∧ w'.store.Reaches scope id ∧ ∃ root ∈ roots, w.store.Owns root symbol
  described : ∀ {symbol id}, w.nodeOf? symbol = none → w'.nodeOf? symbol = some id →
    ∀ {d}, (w.store.symbol symbol).description = some d → ∀ {t}, t ∈ d.types →
      ∃ id', w'.store.Reaches id id' ∧ Part.type t ∈ (w'.store.node id').parts

variable {w w₁ w₂ : Workspace} {scope : NodeId} {roots roots' : List SymbolId}

theorem Quiet.extends (q : Quiet w w₁) (scope : NodeId) : Extends w scope [] w₁ where
  kept := q.kept
  size := q.store ▸ Nat.le_refl _
  grows := q.store ▸ Store.Grows.refl _
  bound := fun eq => (q.nodeOf? _).trans eq
  same := fun _ _ => by rw [q.store]
  widened := ⟨[], List.forall_mem_nil _, by rw [q.store, Node.giveChildren_nil]⟩
  type := fun mem => Or.inl (q.store ▸ mem)
  node := fun mem => Or.inl (q.store ▸ mem)
  fresh := fun none some => by
    rw [q.nodeOf?, none] at some
    cases some
  described := fun none some => by
    rw [q.nodeOf?, none] at some
    cases some

namespace Extends

theorem children (h : Extends w scope roots w₁) {id c : NodeId} (mem : c ∈ w₁.store.children id) :
    c ∈ w.store.children id ∨ w.store.nodes.size ≤ c := by
  by_cases inside : id < w.store.nodes.size
  · by_cases here : id = scope
    · subst here
      obtain ⟨ids, new, eq⟩ := h.widened
      rw [Store.children, eq, Node.giveChildren_body] at mem
      unfold Store.children
      cases body : (w.store.node id).body <;> rw [body] at mem <;>
        simp only [Body.mapChildren, Body.children, List.mem_append, List.not_mem_nil] at mem ⊢
      · exact mem.imp_right (new c)
      · exact mem.imp_right (new c)
    · rw [Store.children, h.same inside here] at mem
      exact Or.inl mem
  · rcases h.node (Node.mem_parts_of_mem_children mem) with old | new
    · rw [Store.parts_of_size_le (Nat.le_of_not_lt inside)] at old
      cases old
    · exact Or.inr new

/-- One extension after the other, in the same scope. -/
theorem trans (h : Extends w scope roots w₁) (h' : Extends w₁ scope roots' w₂) :
    Extends w scope (roots ++ roots') w₂ where
  kept := h.kept.trans h'.kept
  size := Nat.le_trans h.size h'.size
  grows := h.grows.trans h'.grows
  bound := fun eq => h'.bound (h.bound eq)
  same := fun inside ne => by rw [h'.same (Nat.lt_of_lt_of_le inside h.size) ne, h.same inside ne]
  widened := by
    obtain ⟨ids, new, eq⟩ := h.widened
    obtain ⟨ids', new', eq'⟩ := h'.widened
    refine ⟨ids ++ ids', fun c mem => ?_, by rw [eq', eq, Node.giveChildren_giveChildren]⟩
    rcases List.mem_append.1 mem with mem | mem
    · exact new c mem
    · exact Nat.le_trans h.size (new' c mem)
  type := fun mem => by
    rcases h'.type mem with mem | ⟨above, root, here, symbol, d, owns, described, inside⟩
    · rcases h.type mem with mem | ⟨above, root, here, rest⟩
      · exact Or.inl mem
      · exact Or.inr ⟨above, root, List.mem_append_left _ here, rest⟩
    · exact Or.inr ⟨Nat.le_trans h.size above, root, List.mem_append_right _ here, symbol, d,
        owns.congr h.kept.symbols, h.kept.symbol symbol ▸ described, inside⟩
  node := fun mem => by
    rcases h'.node mem with mem | above
    · exact h.node mem
    · exact Or.inr (Nat.le_trans h.size above)
  fresh := fun {symbol id} none some => by
    cases eq : w₁.nodeOf? symbol with
    | none =>
      obtain ⟨above, way, root, here, owns⟩ := h'.fresh eq some
      exact ⟨Nat.le_trans h.size above, way, root, List.mem_append_right _ here, owns.congr h.kept.symbols⟩
    | some id' =>
      rw [h'.bound eq] at some
      cases some
      obtain ⟨above, way, root, here, owns⟩ := h.fresh none eq
      exact ⟨above, h'.grows.reaches way, root, List.mem_append_left _ here, owns⟩
  described := fun {symbol id} none some d described t mem => by
    cases eq : w₁.nodeOf? symbol with
    | none => exact h'.described eq some (h.kept.symbol symbol ▸ described) mem
    | some id' =>
      rw [h'.bound eq] at some
      cases some
      obtain ⟨id'', way, held⟩ := h.described none eq described mem
      exact ⟨id'', h'.grows.reaches way, h'.grows _ _ held⟩

/-- An extension of what was just put below the scope. -/
theorem inner (h : Extends w scope roots w₁) (inside : scope < w.store.nodes.size) {symbol : SymbolId}
    {id : NodeId} (unbound : w.nodeOf? symbol = none)
    (bound : w₁.nodeOf? symbol = some id) (h' : Extends w₁ id (w₁.store.membersOf symbol) w₂) :
    Extends w scope roots w₂ where
  kept := h.kept.trans h'.kept
  size := Nat.le_trans h.size h'.size
  grows := h.grows.trans h'.grows
  bound := fun eq => h'.bound (h.bound eq)
  same := fun inside ne => by
    have other : _ ≠ id := Nat.ne_of_lt (Nat.lt_of_lt_of_le inside (h.fresh unbound bound).1)
    rw [h'.same (Nat.lt_of_lt_of_le inside h.size) other, h.same inside ne]
  widened := by
    obtain ⟨ids, new, eq⟩ := h.widened
    have other : scope ≠ id := Nat.ne_of_lt (Nat.lt_of_lt_of_le inside (h.fresh unbound bound).1)
    exact ⟨ids, new, by rw [h'.same (Nat.lt_of_lt_of_le inside h.size) other, eq]⟩
  type := fun mem => by
    obtain ⟨_, _, root, here, owns⟩ := h.fresh unbound bound
    rcases h'.type mem with mem | ⟨above, member, below, symbol', d, owns', described, inside⟩
    · exact h.type mem
    · refine Or.inr ⟨Nat.le_trans h.size above, root, here, symbol', d, ?_,
        h.kept.symbol symbol' ▸ described, inside⟩
      exact owns.trans (Store.Owns.congr h.kept.symbols (.head below owns'))
  node := fun mem => by
    rcases h'.node mem with mem | above
    · exact h.node mem
    · exact Or.inr (Nat.le_trans h.size above)
  fresh := fun {symbol' id'} none some => by
    obtain ⟨_, way, root, here, owns⟩ := h.fresh unbound bound
    cases eq : w₁.nodeOf? symbol' with
    | none =>
      obtain ⟨above, way', member, below, owns'⟩ := h'.fresh eq some
      exact ⟨Nat.le_trans h.size above, (h'.grows.reaches way).trans way', root, here,
        owns.trans (Store.Owns.congr h.kept.symbols (.head below owns'))⟩
    | some id'' =>
      rw [h'.bound eq] at some
      cases some
      obtain ⟨above, way, root, here, owns⟩ := h.fresh none eq
      exact ⟨above, h'.grows.reaches way, root, here, owns⟩
  described := fun {symbol' id'} none some d described t mem => by
    cases eq : w₁.nodeOf? symbol' with
    | none => exact h'.described eq some (h.kept.symbol symbol' ▸ described) mem
    | some id'' =>
      rw [h'.bound eq] at some
      cases some
      obtain ⟨inner, way, held⟩ := h.described none eq described mem
      exact ⟨inner, h'.grows.reaches way, h'.grows _ _ held⟩

end Extends

theorem extends_of_sprouts (grown : w.store.Sprouts scope [] w₁.store) (container : w.store.isContainer scope = true)
    (kept : Kept w w₁) (nodeOf? : ∀ symbol, w₁.nodeOf? symbol = w.nodeOf? symbol) : Extends w scope [] w₁ where
  kept := kept
  size := Nat.le_of_lt grown.size
  grows := grown.grows container
  bound := fun eq => (nodeOf? _).trans eq
  same := grown.same
  widened := ⟨[w.store.nodes.size], fun c mem => List.mem_singleton.1 mem ▸ Nat.le_refl _, grown.widened⟩
  type := fun mem => (grown.type_or_new container mem).imp_right fun new => nomatch new.2
  node := grown.node_or_new container
  fresh := fun none some => by
    rw [nodeOf?, none] at some
    cases some
  described := fun none some => by
    rw [nodeOf?, none] at some
    cases some

/-- Declaring one symbol is an extension. -/
theorem extends_declare (consistent : w.index.Consistent) (container : w.store.isContainer scope = true)
    (inside : scope < w.store.nodes.size) {symbol : SymbolId} {d : Description}
    (described : (w.store.symbol symbol).description = some d) (unbound : w.nodeOf? symbol = none) :
    Extends w scope [symbol] (w.declare scope symbol d).2 := by
  have declared := declared_declare w inside symbol d
  have grown := declared.sprouts
  have nodeOf? := declared.nodeOf? consistent
  have only : ∀ {symbol' id}, w.nodeOf? symbol' = none → (w.declare scope symbol d).2.nodeOf? symbol' = some id →
      symbol' = symbol ∧ id = w.store.nodes.size := by
    intro symbol' id none some
    rw [nodeOf?] at some
    split at some
    · rename_i here
      exact ⟨here, (Option.some.inj some).symm⟩
    · rw [none] at some
      cases some
  have child : Part.node w.store.nodes.size ∈ ((w.declare scope symbol d).2.store.node scope).parts := by
    rw [grown.widened]
    exact (Node.mem_parts_giveChildren container).2 (Or.inr ⟨_, List.mem_singleton_self _, rfl⟩)
  constructor
  · exact declared.kept
  · exact Nat.le_of_lt grown.size
  · exact grown.grows container
  · intro symbol' id eq
    rw [nodeOf?, if_neg]
    · exact eq
    · rintro rfl
      rw [unbound] at eq
      cases eq
  · exact grown.same
  · exact ⟨[w.store.nodes.size], fun c mem => List.mem_singleton.1 mem ▸ Nat.le_refl _, grown.widened⟩
  · intro id t mem
    refine (grown.type_or_new container mem).imp_right fun new => ?_
    exact ⟨new.1, symbol, List.mem_singleton_self _, symbol, d, .refl, described, new.2⟩
  · exact grown.node_or_new container
  · intro symbol' id none some
    obtain ⟨rfl, rfl⟩ := only none some
    exact ⟨Nat.le_refl _, .single (Node.mem_successors.2 (Or.inl child)), symbol', List.mem_singleton_self _, .refl⟩
  · intro symbol' id none some d' described' t mem
    obtain ⟨rfl, rfl⟩ := only none some
    rw [described] at described'
    cases described'
    exact declared.described mem

/-! ## Conversion in a sound workspace -/

/-- A scope of a sound workspace where symbols may be converted: members only below their owner. -/
structure Hosts (g : Ground) (w : Workspace) (scope : NodeId) (symbols : List SymbolId) : Prop where
  sound : Sound g w
  proper : g.Proper scope
  container : w.store.isContainer scope = true
  place : ∀ symbol ∈ symbols, symbol < g.top ∨ ∃ a, symbol ∈ w.store.membersOf a ∧ w.nodeOf? a = some scope

variable {g : Ground} {symbol : SymbolId} {symbols : List SymbolId} {d : Description}

namespace Hosts

theorem inside (h : Hosts g w scope symbols) : scope < w.store.nodes.size := Store.lt_of_isContainer h.container

/-- The rest of the symbols, after an extension in the scope. -/
theorem rest (h : Hosts g w scope (symbol :: symbols)) (sound : Sound g w₁) (ext : Extends w scope roots w₁) :
    Hosts g w₁ scope symbols where
  sound := sound
  proper := h.proper
  container := by
    obtain ⟨ids, _, eq⟩ := ext.widened
    rw [Store.isContainer, eq, Node.giveChildren_body, Node.isContainer_mapChildren]
    exact h.container
  place := fun symbol' mem => by
    refine (h.place symbol' (List.mem_cons_of_mem _ mem)).imp_right fun member => ?_
    obtain ⟨a, below, bound⟩ := member
    exact ⟨a, by rwa [Sound.membersOf_congr ext.kept.symbols], ext.bound bound⟩

/-- A symbol that is declared can hold its members. -/
theorem declared (h : Hosts g w scope (symbol :: symbols)) (unbound : w.nodeOf? symbol = none)
    (described : (w.store.symbol symbol).description = some d) :
    Hosts g (w.declare scope symbol d).2 w.store.nodes.size d.members := by
  have sound := h.sound.declare h.proper h.container h.inside described unbound
    (h.place symbol List.mem_cons_self)
  have declared := declared_declare w h.inside symbol d
  have bound := (declared.nodeOf? h.sound.consistent symbol).trans (if_pos rfl)
  refine ⟨sound, Or.inr h.sound.layout.base_le, sound.isContainer_of_bound bound, fun member mem => Or.inr ?_⟩
  refine ⟨symbol, ?_, bound⟩
  rw [Sound.membersOf_congr declared.kept.symbols, Store.membersOf_eq described]
  exact mem

theorem quiet (h : Hosts g w scope symbols) (q : Quiet w w₁) : Hosts g w₁ scope symbols where
  sound := h.sound.quiet q
  proper := h.proper
  container := q.store ▸ h.container
  place := fun symbol mem => by
    rw [q.store]
    refine (h.place symbol mem).imp_right fun ⟨a, below, bound⟩ => ⟨a, below, ?_⟩
    exact (q.nodeOf? a).trans bound

end Hosts

/-- What conversion comes to: the workspace stays sound and is extended, no symbol with a description
is left without a node, and no member of a symbol that was declared. -/
structure Converted (g : Ground) (w : Workspace) (scope : NodeId) (symbols : List SymbolId) (w' : Workspace) :
    Prop where
  sound : Sound g w'
  ext : Extends w scope symbols w'
  listed : ∀ {symbol}, symbol ∈ symbols → (w.store.symbol symbol).description.isSome →
    (w'.nodeOf? symbol).isSome
  members : ∀ {symbol}, w.nodeOf? symbol = none → (w'.nodeOf? symbol).isSome →
    ∀ {member}, member ∈ w.store.membersOf symbol → (w'.nodeOf? member).isSome

theorem Extends.isSome (h : Extends w scope roots w₁) {symbol : SymbolId} (some : (w.nodeOf? symbol).isSome) :
    (w₁.nodeOf? symbol).isSome := by
  obtain ⟨id, eq⟩ := Option.isSome_iff_exists.1 some
  rw [h.bound eq]
  rfl

theorem Extends.weaken (h : Extends w scope roots w₁) (sub : ∀ root ∈ roots, root ∈ roots') :
    Extends w scope roots' w₁ where
  kept := h.kept
  size := h.size
  grows := h.grows
  bound := h.bound
  same := h.same
  widened := h.widened
  type := fun mem => (h.type mem).imp_right fun ⟨above, root, here, rest⟩ => ⟨above, root, sub root here, rest⟩
  node := h.node
  fresh := fun none some =>
    have ⟨above, way, root, here, owns⟩ := h.fresh none some
    ⟨above, way, root, sub root here, owns⟩
  described := h.described

/-- The workspace right after a symbol was declared and announced. -/
theorem extends_announced (hosts : Hosts g w scope (symbol :: symbols)) (unbound : w.nodeOf? symbol = none)
    (described : (w.store.symbol symbol).description = some d) :
    Extends w scope [symbol] ((w.declare scope symbol d).2.announce scope w.store.nodes.size) ∧
      ∀ symbol', ((w.declare scope symbol d).2.announce scope w.store.nodes.size).nodeOf? symbol' =
        if symbol' = symbol then some w.store.nodes.size else w.nodeOf? symbol' := by
  have q := quiet_announce (w.declare scope symbol d).2 scope w.store.nodes.size
  have declared := declared_declare w hosts.inside symbol d
  refine ⟨(extends_declare hosts.sound.consistent hosts.container hosts.inside described unbound).trans
    (q.extends scope), fun symbol' => ?_⟩
  rw [q.nodeOf?, declared.nodeOf? hosts.sound.consistent]

theorem Converted.with_owner (hosts : Hosts g w scope (symbol :: symbols)) (unbound : w.nodeOf? symbol = none)
    (described : (w.store.symbol symbol).description = some d)
    (members : Converted g ((w.declare scope symbol d).2.announce scope w.store.nodes.size) w.store.nodes.size
      d.members w₁) : Extends w scope [symbol] w₁ := by
  obtain ⟨first, nodeOf?⟩ := extends_announced hosts unbound described
  have eq : Store.membersOf _ symbol = d.members :=
    (Sound.membersOf_congr first.kept.symbols symbol).trans (Store.membersOf_eq described)
  exact first.inner hosts.inside unbound ((nodeOf? symbol).trans (if_pos rfl)) (eq.symm ▸ members.ext)

/-- Conversion keeps a workspace sound, and declares all it comes to and nothing else. -/
theorem Converts.spec {w' : Workspace} (converts : Converts w scope symbols w') (hosts : Hosts g w scope symbols) :
    Converted g w scope symbols w' := by
  induction converts with
  | nil w scope => exact ⟨hosts.sound, (Quiet.refl w).extends scope, nofun, fun none some => by simp [none] at some⟩
  | @known w w' scope id symbol symbols declared _ ih =>
    rw [hosts.sound.declarationOf?_eq] at declared
    have rest := ih (hosts.rest hosts.sound ((Quiet.refl w).extends scope))
    refine ⟨rest.sound, rest.ext.weaken fun _ => List.mem_cons_of_mem _, fun mem described => ?_, rest.members⟩
    rcases List.mem_cons.1 mem with rfl | mem
    · exact rest.ext.isSome (declared ▸ rfl)
    · exact rest.listed mem described
  | @undescribed w w' scope symbol symbols unbound none _ ih =>
    have q := quiet_report w .debug .conversion ((w.store.symbol symbol).display ++ " has no declaration, skipping")
    have rest := ih ((hosts.rest hosts.sound ((Quiet.refl w).extends scope)).quiet q)
    refine ⟨rest.sound, ((q.extends scope).trans rest.ext).weaken fun _ => List.mem_cons_of_mem _,
      fun mem described => ?_, fun none => rest.members (by rwa [q.nodeOf?])⟩
    rcases List.mem_cons.1 mem with rfl | mem
    · rw [none] at described
      cases described
    · exact rest.listed mem described
  | @fresh w w₁ w' scope symbol symbols d unbound described _ _ ih ih' =>
    rw [hosts.sound.declarationOf?_eq] at unbound
    obtain ⟨first, nodeOf?⟩ := extends_announced hosts unbound described
    have members := ih ((hosts.declared unbound described).quiet (quiet_announce ..))
    have both := Converted.with_owner hosts unbound described members
    have rest := ih' (hosts.rest members.sound both)
    refine ⟨rest.sound, both.trans rest.ext, fun mem some => ?_, fun {symbol'} none some member mem => ?_⟩
    · rcases List.mem_cons.1 mem with rfl | mem
      · refine rest.ext.isSome (members.ext.isSome ?_)
        rw [nodeOf?, if_pos rfl]
        rfl
      · exact rest.listed mem (both.kept.symbol _ ▸ some)
    · by_cases here : symbol' = symbol
      · subst here
        rw [Store.membersOf_eq described] at mem
        refine rest.ext.isSome (members.listed mem ?_)
        obtain ⟨above, below⟩ := hosts.sound.catalog.members ((Store.membersOf_eq described).symm ▸ mem)
        rw [first.kept.symbol]
        exact hosts.sound.catalog.described above below
      · have none' := (nodeOf? symbol').trans ((if_neg here).trans none)
        cases eq : w₁.nodeOf? symbol' with
        | none => exact rest.members eq some ((Sound.membersOf_congr both.kept.symbols _).symm ▸ mem)
        | some id =>
          refine rest.ext.isSome (members.members none' (eq ▸ rfl) ?_)
          rwa [Sound.membersOf_congr first.kept.symbols]

/-- A symbol that had no node gets the next one. -/
theorem Converts.nodeOf?_eq {w' : Workspace} (converts : Converts w scope [symbol] w') (hosts : Hosts g w scope [symbol])
    (unbound : w.nodeOf? symbol = none) (described : (w.store.symbol symbol).description.isSome) :
    w'.nodeOf? symbol = some w.store.nodes.size := by
  cases converts with
  | known declared =>
    rw [hosts.sound.declarationOf?_eq, unbound] at declared
    cases declared
  | undescribed _ none =>
    rw [none] at described
    cases described
  | fresh _ eq members rest =>
    cases rest
    have inner := members.spec ((hosts.declared unbound eq).quiet (quiet_announce ..))
    exact inner.ext.bound (((extends_announced hosts unbound eq).2 symbol).trans (if_pos rfl))

/-- The types in the declaration of a symbol, members included, come to stand below the scope. -/
theorem Converted.declares {w' : Workspace} (h : Converted g w scope [symbol] w') (sound : Sound g w)
    (unbound : w.nodeOf? symbol = none) (described : (w.store.symbol symbol).description.isSome) {t : Ty}
    (declares : w.store.Declares symbol t) :
    ∃ id, w'.store.Reaches scope id ∧ Part.type t ∈ (w'.store.node id).parts := by
  obtain ⟨member, d, owns, eq, mem⟩ := declares
  have fresh : w.nodeOf? member = none ∧ (w'.nodeOf? member).isSome := by
    clear eq
    induction owns with
    | refl => exact ⟨unbound, h.listed (List.mem_singleton_self _) described⟩
    | tail _ step ih =>
      refine ⟨Option.eq_none_iff_forall_ne_some.2 fun id bound => ?_, h.members ih.1 ih.2 step⟩
      obtain ⟨id', bound', _⟩ := sound.owner step bound
      rw [ih.1] at bound'
      cases bound'
  obtain ⟨id, bound⟩ := Option.isSome_iff_exists.1 fresh.2
  obtain ⟨id', way, held⟩ := h.ext.described fresh.1 bound eq mem
  exact ⟨id', (h.ext.fresh fresh.1 bound).2.1.trans way, held⟩

/-! ## Conversion as computed -/

theorem Hosts.card_unbound_le (hosts : Hosts g w scope symbols) (converts : Converts w scope symbols w₁) :
    w₁.unbound.card ≤ w.unbound.card :=
  have only := hosts.sound.declarationsOnly
  Finset.card_le_card ((converts.brings only hosts.container).unbound_subset only)

theorem Hosts.card_unbound_lt (hosts : Hosts g w scope (symbol :: symbols)) (unbound : w.nodeOf? symbol = none)
    (described : (w.store.symbol symbol).description = some d) :
    ((w.declare scope symbol d).2.announce scope w.store.nodes.size).unbound.card < w.unbound.card := by
  have only := hosts.sound.declarationsOnly
  have heads := (heads_declare hosts.container symbol d).quiet (quiet_announce _ scope w.store.nodes.size) only
  exact heads.card_unbound_lt only rfl ⟨unbound, d, described⟩

theorem converts_convertIn (depth : Nat) (hosts : Hosts g w scope [symbol]) (enough : w.unbound.card < depth) :
    Converts w scope [symbol] (convertIn depth w scope symbol).2 ∧
      (convertIn depth w scope symbol).1 =
        (w.nodeOf? symbol).or ((w.store.symbol symbol).description.map fun _ => w.store.nodes.size) :=
  converts_of_declarationsOnly depth symbol hosts.sound.declarationsOnly hosts.container enough

/-- Converting a symbol while a program is active succeeds, with the declaration that the symbol
has, or else with a new one if it is described. -/
theorem convert_eq (hosts : Hosts g w scope [symbol]) (active : w.active.isSome) :
    ∃ w', w.convert scope symbol = (.ok ((w.nodeOf? symbol).or
        ((w.store.symbol symbol).description.map fun _ => w.store.nodes.size)), w') ∧
      Converts w scope [symbol] w' := by
  obtain ⟨converts, answer⟩ := converts_convertIn (w.store.symbols.size + 1) hosts
    (Nat.lt_succ_of_le (card_unbound_le w))
  refine ⟨_, ?_, converts⟩
  unfold convert
  rw [if_neg (by simpa using Option.isSome_iff_ne_none.1 active), if_neg (by simp [hosts.container]),
    if_neg (by simp [canAnnounce_of_plugin hosts.sound.plugin]), ← answer]

theorem convert_inactive (w : Workspace) (scope : NodeId) (symbol : SymbolId) (inactive : w.active = none) :
    w.convert scope symbol = (.error .noActiveProgram, w) := by
  unfold convert
  rw [if_pos (by simp [inactive])]

/-! ## Where modules come from -/

/-- Of the modules and the project, just those that hold anything are known to come from a program. -/
structure Tracked (g : Ground) (w : Workspace) : Prop where
  project : (w.store.node g.project).isKind trackedKinds = true
  holds : ∀ {id}, (w.known.find? id).isSome → w.store.children id ≠ []
  marked : ∀ {id}, g.Proper id → (w.store.node id).isKind trackedKinds = true → w.store.children id ≠ [] →
    (w.known.find? id).isSome

theorem Tracked.of_same (h : Tracked g w) (store : w₁.store = w.store) (known : w₁.known = w.known) :
    Tracked g w₁ where
  project := store ▸ h.project
  holds := fun here => store ▸ h.holds (known ▸ here)
  marked := fun proper tracked some => known ▸ h.marked proper (store ▸ tracked) (store ▸ some)

/-- A new child whose scope is marked with it keeps track of where modules come from. -/
theorem Tracked.sprouts {types : List Ty} (h : Tracked g w) (grown : w.store.Sprouts scope types w₁.store)
    (container : w.store.isContainer scope = true) (inside : scope < w.store.nodes.size)
    (project : g.project < w.store.nodes.size)
    (known : ∀ id, (w₁.known.find? id).isSome ↔
      (w.known.find? id).isSome ∨ (id = scope ∧ (w.store.node scope).isKind trackedKinds = true)) :
    Tracked g w₁ := by
  have children := grown.children container
  have kind : ∀ {id}, id < w.store.nodes.size →
      (w₁.store.node id).isKind trackedKinds = (w.store.node id).isKind trackedKinds := by
    intro id inside
    by_cases here : id = scope
    · rw [here, grown.widened]
      rfl
    · rw [grown.same inside here]
  refine ⟨(kind project).trans h.project, fun {id} here => ?_, fun {id} proper tracked some => ?_⟩
  · rw [children]
    rcases (known id).1 here with before | ⟨scope', _⟩
    · split
      · exact List.append_ne_nil_of_right_ne_nil _ (List.cons_ne_nil _ _)
      · exact h.holds before
    · rw [if_pos scope']
      exact List.append_ne_nil_of_right_ne_nil _ (List.cons_ne_nil _ _)
  · rw [children] at some
    rw [known]
    by_cases here : id = scope
    · subst here
      exact Or.inr ⟨rfl, (kind inside).symm.trans tracked⟩
    · rw [if_neg here] at some
      have inside' : id < w.store.nodes.size := by
        by_contra outside
        exact some (Store.children_of_size_le (Nat.le_of_not_lt outside))
      exact Or.inl (h.marked proper ((kind inside').symm.trans tracked) some)

/-- Conversion keeps track of where modules come from. -/
theorem Converts.tracked {w' : Workspace} (converts : Converts w scope symbols w')
    (hosts : Hosts g w scope symbols) (active : w.active.isSome) (tracked : Tracked g w) : Tracked g w' := by
  induction converts with
  | nil => exact tracked
  | known _ _ ih => exact ih (hosts.rest hosts.sound ((Quiet.refl _).extends _)) active tracked
  | @undescribed w w' scope symbol symbols _ none _ ih =>
    have q := quiet_report w .debug .conversion ((w.store.symbol symbol).display ++ " has no declaration, skipping")
    exact ih ((hosts.rest hosts.sound ((Quiet.refl w).extends scope)).quiet q) active (tracked.of_same rfl rfl)
  | @fresh w w₁ w' scope symbol symbols d unbound described members rest ih ih' =>
    rw [hosts.sound.declarationOf?_eq] at unbound
    have declared := declared_declare w hosts.inside symbol d
    have grown := declared.sprouts
    have q := quiet_announce (w.declare scope symbol d).2 scope w.store.nodes.size
    have active' : (w.declare scope symbol d).2.active.isSome := declared.kept.active ▸ active
    have announced : Tracked g ((w.declare scope symbol d).2.announce scope w.store.nodes.size) := by
      refine tracked.sprouts (q.store ▸ grown) hosts.container hosts.inside hosts.sound.layout.project_lt_size
        fun id => ?_
      rw [known_announce_iff (declared.kept.listeners.trans hosts.sound.plugin) _ _ active', known_declare,
        grown.widened]
      exact Iff.rfl
    have below := (hosts.declared unbound described).quiet q
    have inner := members.spec below
    have both := Converted.with_owner hosts unbound described inner
    exact ih' (hosts.rest inner.sound both) (both.kept.active ▸ active) (ih below (q.active ▸ active') announced)

end Workspace

end DocTree
