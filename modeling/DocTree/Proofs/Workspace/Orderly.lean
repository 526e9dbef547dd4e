import DocTree.Proofs.Document.Load
import Mathlib.Data.List.Pairwise

/-!
# Every node in one place

* `Single s` : no node is held twice; `Tallied.single`, `Sprouts.single`, `Removable.single`;
* `Orderly g w` : besides, the inline declarations of a symbol are held by nobody as long as the symbol
  has no node, and by something below its node from then on; every symbol with a node has it in the
  tree;
* `Edits.orderly` : no operation changes that.
-/

namespace DocTree

open Workspace

variable {g : Ground} {extras : Set (Kind × Value)} {s t : Store} {w w' : Workspace} {scope parent id : NodeId}
  {types : List Ty}

/-! ## Nodes -/

/-- Every node is held in one place at most. -/
structure Single (s : Store) : Prop where
  nodup : ∀ id, (s.node id).successors.Nodup
  holder : ∀ {a b c}, c ∈ (s.node a).successors → c ∈ (s.node b).successors → a = b

theorem eq_of_nodup_flatMap {α β : Type} {l : List α} {f : α → List β} (h : (l.flatMap f).Nodup) {a b : α}
    (mem : a ∈ l) (mem' : b ∈ l) {c : β} (inside : c ∈ f a) (inside' : c ∈ f b) : a = b := by
  have symm : Std.Symm (Function.onFun List.Disjoint f) := ⟨fun _ _ apart => apart.symm⟩
  by_contra ne
  exact (List.nodup_flatMap.1 h).2.forall mem mem' ne inside inside'

theorem Store.holder_of_nodup {low count a b c : Nat} (h : (s.heldFrom low count).Nodup)
    (mem : a ∈ List.range' low count) (mem' : b ∈ List.range' low count) (held : c ∈ (s.node a).successors)
    (held' : c ∈ (s.node b).successors) : a = b := eq_of_nodup_flatMap h mem mem' held held'

theorem flatMap_toList_eq {α β : Type} [Inhabited α] (xs : Array α) (f : α → List β) :
    xs.toList.flatMap f = (List.range' 0 xs.size).flatMap fun i => f ((xs[i]?).getD default) := by
  have eq : xs.toList = (List.range' 0 xs.size).map fun i => (xs[i]?).getD default := by
    refine List.ext_getElem (by simp) fun i lt _ => ?_
    have lt : i < xs.size := lt
    simp [lt]
  rw [eq, List.flatMap_map]

theorem Store.held_eq (s : Store) : s.held = s.heldFrom 0 s.nodes.size := flatMap_toList_eq ..

theorem Tallied.single {hand : List NodeId} (h : Tallied s hand) : Single s := by
  have nodup := (List.nodup_append.1 (List.nodup_append.1 h.once).1).1
  rw [s.held_eq] at nodup
  have run : ∀ {id : NodeId}, id < s.nodes.size → id ∈ List.range' 0 s.nodes.size := fun inside =>
    List.mem_range'_1.2 ⟨Nat.zero_le _, by rwa [Nat.zero_add]⟩
  refine ⟨fun id => ?_, fun held held' => ?_⟩
  · by_cases inside : id < s.nodes.size
    · exact (List.nodup_flatMap.1 nodup).1 id (run inside)
    · rw [Store.node_of_size_le (Nat.le_of_not_lt inside)]
      exact List.nodup_nil
  · exact Store.holder_of_nodup nodup (run (Store.lt_of_mem_successors held))
      (run (Store.lt_of_mem_successors held')) held held'

theorem Node.perm_successors_giveChildren {n : Node} {ids : List NodeId} (h : n.body.isContainer = true) :
    (n.giveChildren ids).successors.Perm (n.successors ++ ids) := by
  obtain ⟨name, kind, parent, body⟩ := n
  refine List.perm_iff_count.2 fun id => ?_
  cases body with
  | project children =>
    simp only [giveChildren, Body.mapChildren, successors_eq, parts, flatMap_enters_node, List.count_append]
  | declaration b =>
    simp only [giveChildren, Body.mapChildren, successors_eq, parts, List.flatMap_append, flatMap_enters_node,
      List.count_append, Option.toList]
    omega
  | _ => cases h

theorem Node.successors_mapChildren_sublist {n : Node} {f : List NodeId → List NodeId}
    (sub : ∀ ids, (f ids).Sublist ids) :
    ({ n with body := n.body.mapChildren f } : Node).successors.Sublist n.successors := by
  obtain ⟨name, kind, parent, body⟩ := n
  cases body with
  | project children =>
    simp only [Body.mapChildren, successors_eq, parts, flatMap_enters_node]
    exact sub children
  | declaration b =>
    simp only [Body.mapChildren, successors_eq, parts, List.flatMap_append, flatMap_enters_node, List.append_assoc]
    exact (sub b.children).append (.refl _)
  | _ => exact .refl _

/-- What a node holds after a declaration came into a scope: what it held, the new declaration, and what came with
it. -/
theorem Store.Sprouts.held (h : s.Sprouts scope types t) (container : s.isContainer scope = true) {a c : NodeId}
    (held : c ∈ (t.node a).successors) :
    c ∈ (s.node a).successors ∨ (a = scope ∧ c = s.nodes.size) ∨
      (s.nodes.size ≤ a ∧ c ∈ t.heldFrom s.nodes.size (t.nodes.size - s.nodes.size)) := by
  have below := Store.lt_of_mem_successors held
  by_cases here : a = scope
  · rw [here, h.widened] at held
    rcases (Node.mem_successors_giveChildren container).1 held with old | new
    · exact Or.inl (here ▸ old)
    · exact Or.inr (Or.inl ⟨here, List.mem_singleton.1 new⟩)
  · by_cases inside : a < s.nodes.size
    · exact Or.inl (h.same inside here ▸ held)
    · have above := Nat.le_of_not_lt inside
      refine Or.inr (Or.inr ⟨above, List.mem_flatMap.2 ⟨a, List.mem_range'_1.2 ⟨above, ?_⟩, held⟩⟩)
      rwa [Nat.add_sub_cancel' (Nat.le_of_lt h.size)]

/-- A declaration that comes with inline declarations nobody held before leaves every node in one place. -/
theorem Store.Sprouts.single (h : s.Sprouts scope types t) (container : s.isContainer scope = true)
    (single : Single s) (below : ∀ {a c}, c ∈ (s.node a).successors → c < s.nodes.size)
    (nodup : (types.flatMap Ty.inlines).Nodup)
    (free : ∀ c ∈ types.flatMap Ty.inlines, c < s.nodes.size ∧ ∀ a, c ∉ (s.node a).successors) :
    Single t := by
  have fresh : ∀ c ∈ t.heldFrom s.nodes.size (t.nodes.size - s.nodes.size),
      s.nodes.size < c ∨ c ∈ types.flatMap Ty.inlines := by
    intro c mem
    rcases List.mem_append.1 (h.once.mem_iff.1 mem) with new | type
    · exact Or.inl (List.mem_range'_1.1 new).1
    · exact Or.inr type
  have once : (t.heldFrom s.nodes.size (t.nodes.size - s.nodes.size)).Nodup := by
    refine h.once.nodup_iff.2 (List.nodup_append.2 ⟨List.nodup_range', nodup, fun a mem b mem' same => ?_⟩)
    exact absurd (free b mem').1 (Nat.not_lt_of_lt (same ▸ (List.mem_range'_1.1 mem).1))
  have new : ∀ {a c}, c ∈ (s.node a).successors →
      c ≠ s.nodes.size ∧ c ∉ t.heldFrom s.nodes.size (t.nodes.size - s.nodes.size) := by
    intro a c held
    refine ⟨Nat.ne_of_lt (below held), fun mem => ?_⟩
    rcases fresh c mem with above | type
    · exact absurd (below held) (Nat.not_lt_of_lt above)
    · exact (free c type).2 a held
  have last : s.nodes.size ∉ t.heldFrom s.nodes.size (t.nodes.size - s.nodes.size) := by
    intro mem
    rcases fresh _ mem with above | type
    · exact Nat.lt_irrefl _ above
    · exact Nat.lt_irrefl _ (free _ type).1
  have run : ∀ {a}, s.nodes.size ≤ a → a < t.nodes.size →
      a ∈ List.range' s.nodes.size (t.nodes.size - s.nodes.size) := by
    intro a above lt
    exact List.mem_range'_1.2 ⟨above, by rwa [Nat.add_sub_cancel' (Nat.le_of_lt h.size)]⟩
  refine ⟨fun a => ?_, fun {a b c} held held' => ?_⟩
  · by_cases here : a = scope
    · subst here
      rw [h.widened]
      refine (Node.perm_successors_giveChildren container).nodup_iff.2 (List.nodup_append.2
        ⟨single.nodup a, List.nodup_singleton _, fun c mem d mem' same => ?_⟩)
      exact (new mem).1 (same.trans (List.mem_singleton.1 mem'))
    · by_cases old : a < s.nodes.size
      · exact h.same old here ▸ single.nodup a
      · by_cases lt : a < t.nodes.size
        · exact (List.nodup_flatMap.1 once).1 a (run (Nat.le_of_not_lt old) lt)
        · rw [Store.node_of_size_le (Nat.le_of_not_lt lt)]
          exact List.nodup_nil
  · rcases h.held container held with old | ⟨rfl, rfl⟩ | ⟨above, mem⟩
    · rcases h.held container held' with old' | ⟨rfl, rfl⟩ | ⟨above', mem'⟩
      · exact single.holder old old'
      · exact absurd rfl (new old).1
      · exact absurd mem' (new old).2
    · rcases h.held container held' with old' | ⟨rfl, _⟩ | ⟨above', mem'⟩
      · exact absurd rfl (new old').1
      · rfl
      · exact absurd mem' last
    · rcases h.held container held' with old' | ⟨rfl, rfl⟩ | ⟨above', mem'⟩
      · exact absurd mem (new old').2
      · exact absurd mem last
      · exact Store.holder_of_nodup once (run above (Store.lt_of_mem_successors held))
          (run above' (Store.lt_of_mem_successors held')) held held'

theorem Node.mem_parts_of_mapChildren {n : Node} {f : List NodeId → List NodeId} {p : Part}
    (keep : ∀ {ids c}, p = .node c → c ∈ ids → c ∈ f ids) (mem : p ∈ n.parts) :
    p ∈ ({ n with body := n.body.mapChildren f } : Node).parts := by
  obtain ⟨name, kind, parent, body⟩ := n
  cases body with
  | project children =>
    obtain ⟨c, held, rfl⟩ := List.mem_map.1 mem
    exact List.mem_map_of_mem (keep rfl held)
  | declaration b =>
    simp only [Body.mapChildren, parts, List.mem_append (s := List.map _ _ ++ _ ++ _),
      List.mem_append (s := List.map _ _ ++ _), List.mem_append (s := List.map _ _)] at mem ⊢
    rcases mem with ((child | type) | limb) | types
    · obtain ⟨c, held, rfl⟩ := List.mem_map.1 child
      exact Or.inl (Or.inl (Or.inl (List.mem_map_of_mem (keep rfl held))))
    · exact Or.inl (Or.inl (Or.inr type))
    · exact Or.inl (Or.inr limb)
    · exact Or.inr types
  | _ => exact mem

theorem Removable.sublist (h : Removable g w.store parent id) (layout : Layout g w.store) (a : NodeId) :
    ((w.remove id).store.node a).successors.Sublist (w.store.node a).successors := by
  rw [(h.cut layout).node]
  split
  · rename_i here
    exact here ▸ .refl _
  · split
    · rename_i above
      exact above ▸ Node.successors_mapChildren_sublist fun ids => List.erase_sublist
    · exact .refl _

theorem Removable.single (h : Removable g w.store parent id) (layout : Layout g w.store) (single : Single w.store) :
    Single (w.remove id).store :=
  ⟨fun a => (single.nodup a).sublist (h.sublist layout a), fun held held' =>
    single.holder ((h.sublist layout _).subset held) ((h.sublist layout _).subset held')⟩

/-- A search still comes to everything but the declaration that was removed. -/
theorem Removable.reaches (h : Removable g w.store parent id) (layout : Layout g w.store) {a b : NodeId}
    (way : w.store.Reaches a b) (ne : b ≠ id) : (w.remove id).store.Reaches a b := by
  induction way using Relation.ReflTransGen.head_induction_on with
  | refl => exact .refl b
  | @head x y step rest ih =>
    refine Store.Reaches.trans (.single ?_) ih
    -- Nothing is reached from the declaration itself, so the way does not go through it.
    have other : y ≠ id := by
      rintro rfl
      rcases rest.cases_head with same | ⟨z, step', _⟩
      · exact ne same.symm
      · rw [Node.successors, Node.parts, h.bare] at step'
        cases step'
    rw [(h.cut layout).node]
    split
    · rename_i here
      exact here ▸ step
    · split
      · rename_i above
        subst above
        have keep : ∀ {p}, p ∈ (w.store.node x).parts → p ≠ .node id → p ∈ ({ w.store.node x with
            body := (w.store.node x).body.mapChildren (·.erase id) } : Node).parts := fun mem ne =>
          Node.mem_parts_of_mapChildren (fun eq held =>
            (List.mem_erase_of_ne fun same => ne (eq.trans (congrArg Part.node same))).2 held) mem
        rcases Node.mem_successors.1 step with held | ⟨u, held, inline⟩
        · exact Node.mem_successors.2 (Or.inl (keep held fun eq => other (Part.node.inj eq)))
        · exact Node.mem_successors.2 (Or.inr ⟨u, keep held (fun same => by cases same), inline⟩)
      · exact step

/-! ## Workspaces -/

/-- The inline declarations of symbols are apart from each other. -/
structure Unshared (s : Store) : Prop where
  nodup : ∀ symbol, (s.symbol symbol).wraps.Nodup
  owner : ∀ {a b i}, i ∈ (s.symbol a).wraps → i ∈ (s.symbol b).wraps → a = b

theorem Unshared.congr (h : Unshared s) (same : t.symbols = s.symbols) : Unshared t := by
  have symbol : ∀ X, t.symbol X = s.symbol X := fun X => by rw [Store.symbol, Store.symbol, same]
  exact ⟨fun X => symbol X ▸ h.nodup X, fun held held' => h.owner (symbol _ ▸ held) (symbol _ ▸ held')⟩

/-- Every node is held in one place; inline declarations by nobody before their symbol has a node, and by something
below that node afterwards. What symbols lead to is part of the tree. -/
structure Orderly (g : Ground) (w : Workspace) : Prop where
  single : Single w.store
  unshared : Unshared w.store
  waits : ∀ {symbol i a}, i ∈ (w.store.symbol symbol).wraps → i ∈ (w.store.node a).successors →
    ∃ id, w.nodeOf? symbol = some id ∧ w.store.Reaches id i
  attached : ∀ {symbol id}, w.nodeOf? symbol = some id → w.store.Reaches g.project id

/-- It starts when the programs of a document are loaded. -/
theorem Document.Origin.orderly (h : Document.Origin g w) : Orderly g w := by
  obtain ⟨once, _⟩ := List.nodup_append.1 h.tallied.once
  obtain ⟨_, wrapped, free⟩ := List.nodup_append.1 once
  have run : ∀ {symbol i}, i ∈ (w.store.symbol symbol).wraps →
      symbol ∈ List.range' 0 w.store.symbols.size := by
    intro symbol i mem
    refine List.mem_range'_1.2 ⟨Nat.zero_le _, ?_⟩
    by_contra outside
    rw [Nat.zero_add] at outside
    rw [Store.symbol, Array.getElem?_eq_none (Nat.le_of_not_lt outside)] at mem
    cases mem
  have eq : w.store.wrapped = (List.range' 0 w.store.symbols.size).flatMap fun X => (w.store.symbol X).wraps :=
    flatMap_toList_eq ..
  refine ⟨h.tallied.single, ⟨fun X => ?_, fun held held' => ?_⟩, fun {symbol i a} waits held => ?_,
    fun {symbol id} bound => ?_⟩
  · rw [eq] at wrapped
    by_cases some : ∃ i, i ∈ (w.store.symbol X).wraps
    · obtain ⟨i, mem⟩ := some
      exact (List.nodup_flatMap.1 wrapped).1 X (run mem)
    · rw [List.eq_nil_iff_forall_not_mem.2 (not_exists.1 some)]
      exact List.nodup_nil
  · rw [eq] at wrapped
    exact eq_of_nodup_flatMap wrapped (run held) (run held') held held'
  · have lt := Store.lt_of_mem_successors held
    have held : i ∈ w.store.held := by
      rw [w.store.held_eq]
      exact List.mem_flatMap.2 ⟨a, List.mem_range'_1.2 ⟨Nat.zero_le _, by rwa [Nat.zero_add]⟩, held⟩
    refine absurd rfl (free i held i ?_)
    rw [eq]
    exact List.mem_flatMap.2 ⟨symbol, run waits, waits⟩
  · rw [h.unbound] at bound
    cases bound

theorem Layout.held_lt (h : Layout g s) {a c : NodeId} (held : c ∈ (s.node a).successors) : c < s.nodes.size := by
  rcases h.successor held with ⟨_, _, below, _⟩ | ⟨below, _⟩
  · exact below
  · exact Nat.lt_of_lt_of_le below h.base_le

theorem Sound.lt_of_wraps (h : Sound g w) {symbol : SymbolId} {i : NodeId}
    (waits : i ∈ (w.store.symbol symbol).wraps) : i < g.base := by
  cases eq : (w.store.symbol symbol).description with
  | none =>
    rw [Symbol.wraps, eq] at waits
    cases waits
  | some d =>
    rw [Symbol.wraps_eq eq] at waits
    obtain ⟨t, mem, inside⟩ := List.mem_flatMap.1 waits
    exact ((h.catalog.types eq mem).inlines inside).1

/-- A declaration comes into a scope, with inline declarations that nobody held. -/
theorem Orderly.sprouts (h : Orderly g w) (sound : Sound g w) (site : Site g w scope)
    (grown : w.store.Sprouts scope types w'.store) (symbols : w'.store.symbols = w.store.symbols)
    (nodup : (types.flatMap Ty.inlines).Nodup)
    (free : ∀ c ∈ types.flatMap Ty.inlines, c < w.store.nodes.size ∧ ∀ a, c ∉ (w.store.node a).successors)
    (claimed : ∀ {symbol i}, i ∈ (w.store.symbol symbol).wraps → i ∈ types.flatMap Ty.inlines →
      ∃ id, w'.nodeOf? symbol = some id ∧ w'.store.Reaches id i)
    (old : ∀ {symbol id}, w.nodeOf? symbol = some id → w'.nodeOf? symbol = some id)
    (new : ∀ {symbol id}, w'.nodeOf? symbol = some id → w.nodeOf? symbol = some id ∨ id = w.store.nodes.size) :
    Orderly g w' := by
  have grows := grown.grows site.container
  have layout := sound.layout
  have symbol : ∀ X, w'.store.symbol X = w.store.symbol X := fun X => by rw [Store.symbol, Store.symbol, symbols]
  refine ⟨grown.single site.container h.single layout.held_lt nodup free, h.unshared.congr symbols,
    fun {X i a} waits held => ?_, fun {X id} bound => ?_⟩
  · rw [symbol] at waits
    have lt : i < w.store.nodes.size := Nat.lt_of_lt_of_le (sound.lt_of_wraps waits) layout.base_le
    rcases grown.held site.container held with before | ⟨_, rfl⟩ | ⟨_, mem⟩
    · obtain ⟨id, bound, way⟩ := h.waits waits before
      exact ⟨id, old bound, grows.reaches way⟩
    · exact absurd lt (Nat.lt_irrefl _)
    · rcases List.mem_append.1 (grown.once.mem_iff.1 mem) with above | type
      · exact absurd lt (Nat.not_lt_of_lt (List.mem_range'_1.1 above).1)
      · exact claimed waits type
  · rcases new bound with bound | rfl
    · exact grows.reaches (h.attached bound)
    · refine (grows.reaches site.way).trans (.single ?_)
      rw [grown.widened]
      exact (Node.mem_successors_giveChildren site.container).2 (Or.inr (List.mem_singleton_self _))

/-- An operation keeps every node in its place. -/
theorem Edit.orderly {made : Made} (edit : Edit g extras w made w') (sound : Sound g w) (h : Orderly g w) :
    Orderly g w' := by
  cases edit with
  | noted alike =>
    obtain ⟨single, unshared, waits, attached⟩ := h
    have nodeOf? := alike.nodeOf?
    refine ⟨alike.store ▸ single, alike.store ▸ unshared, fun inside held => ?_, fun bound => ?_⟩
    · rw [alike.store] at inside held ⊢
      rw [nodeOf?]
      exact waits inside held
    · rw [alike.store]
      exact attached ((nodeOf? _).symm.trans bound)
  | @created scope kind name site extra =>
    obtain ⟨grown, _⟩ := sound.create site.proper site.container site.inside kind name
    have nodeOf? : ∀ symbol, (w.create scope kind name none).2.nodeOf? symbol = w.nodeOf? symbol :=
      fun symbol => (nodeOf?_create sound.consistent symbol).trans (if_neg (Option.some_ne_none _))
    refine h.sprouts sound site grown (kept_create ..).symbols List.nodup_nil (fun c mem => nomatch mem)
      (fun _ mem => nomatch mem) (fun {X id} bound => (nodeOf? X).trans bound)
      fun {X id} bound => Or.inl ((nodeOf? X).symm.trans bound)
  | @declared scope symbol d site described unbound place =>
    have made := declared_declare w site.inside symbol d
    have nodeOf? := made.nodeOf? sound.consistent
    have wraps := Symbol.wraps_eq described
    refine h.sprouts sound site made.sprouts made.kept.symbols (wraps ▸ h.unshared.nodup symbol) (fun c mem => ?_)
      (fun {X i} waits mem => ?_) (fun {X id} bound => ?_) fun {X id} bound => ?_
    · rw [← wraps] at mem
      refine ⟨Nat.lt_of_lt_of_le (sound.lt_of_wraps mem) sound.layout.base_le, fun a held => ?_⟩
      obtain ⟨id, bound, _⟩ := h.waits mem held
      rw [unbound] at bound
      cases bound
    · cases h.unshared.owner waits (wraps.symm ▸ mem)
      obtain ⟨t, listed, inside⟩ := List.mem_flatMap.1 mem
      obtain ⟨id, way, part⟩ := made.described listed
      exact ⟨w.store.nodes.size, (nodeOf? symbol).trans (if_pos rfl),
        way.trans (.single (Node.mem_successors.2 (Or.inr ⟨t, part, inside⟩)))⟩
    · refine (nodeOf? X).trans ((if_neg ?_).trans bound)
      rintro rfl
      rw [unbound] at bound
      cases bound
    · rw [nodeOf?] at bound
      split at bound
      · exact Or.inr (Option.some.inj bound).symm
      · exact Or.inl bound
  | @bound scope id symbol _ named unbound above way declaration =>
    have nodeOf? := nodeOf?_register sound.consistent scope id (some symbol)
    have node := node_register w scope id (some symbol)
    have kept := kept_register w scope id (some symbol)
    have reaches : ∀ {a b}, w.store.Reaches a b → (w.register scope id (some symbol)).store.Reaches a b :=
      fun way => way.congr fun a _ => node a
    refine ⟨⟨fun a => node a ▸ h.single.nodup a, fun held held' => ?_⟩, h.unshared.congr kept.symbols,
      fun {X i a} waits held => ?_, fun {X id'} eq => ?_⟩
    · rw [node] at held held'
      exact h.single.holder held held'
    · rw [node] at held
      rw [kept.symbol] at waits
      obtain ⟨id', eq, way'⟩ := h.waits waits held
      refine ⟨id', (nodeOf? X).trans ((if_neg fun same => ?_).trans eq), reaches way'⟩
      cases same
      rw [unbound] at eq
      cases eq
    · rw [nodeOf?] at eq
      split at eq
      · cases eq
        exact reaches way
      · exact reaches (h.attached eq)

/-- So does removing a declaration that holds nothing. -/
theorem Orderly.remove (h : Orderly g w) (sound : Sound g w) (removable : Removable g w.store parent id) :
    Orderly g (w.remove id) := by
  have layout := sound.layout
  have nodeOf? := nodeOf?_remove sound.consistent (removable.inside layout) removable.bare
  have kept := kept_remove w id
  have proper : g.base ≤ id := (layout.child removable.proper removable.child).1
  refine ⟨removable.single layout h.single, h.unshared.congr kept.symbols, fun {X i a} waits held => ?_,
    fun {X id'} eq => ?_⟩
  · rw [kept.symbol] at waits
    have lt := sound.lt_of_wraps waits
    have ne : i ≠ id := fun same => absurd lt (Nat.not_lt_of_le (same ▸ proper))
    obtain ⟨id', eq, way⟩ := h.waits waits ((removable.sublist layout a).subset held)
    refine ⟨id', (nodeOf? X).trans ((if_neg fun same => ?_).trans eq), removable.reaches layout way ne⟩
    -- The declaration holds nothing, so what waited for the symbol would be the declaration itself.
    rw [eq] at same
    cases same
    rcases Relation.ReflTransGen.cases_head way with rfl | ⟨b, step, _⟩
    · exact ne rfl
    · rw [Node.successors, Node.parts, removable.bare] at step
      cases step
  · rw [nodeOf?] at eq
    split at eq
    · cases eq
    · rename_i ne
      exact removable.reaches layout (h.attached eq) fun same => ne (same ▸ eq)

/-- Whatever is done, every node stays in its place. -/
theorem Edits.orderly (edits : Edits g extras w w') (sound : Sound g w) (h : Orderly g w) : Orderly g w' := by
  obtain ⟨made, run⟩ := edits
  induction run with
  | start => exact h
  | edit before edit ih => exact edit.orderly (before.sound sound) ih
  | removed before removable _ _ ih => exact ih.remove (before.sound sound) removable

end DocTree
