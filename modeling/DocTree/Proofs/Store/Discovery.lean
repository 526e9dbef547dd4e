import DocTree.Proofs.Output.Reader
import DocTree.Proofs.Store.Change
import DocTree.Proofs.Store.Reach

/-!
# What a search finds

A search is specified here without the lists it goes by. Where types and nodes stand is said field by field, the nodes
below a node are those that some way leads to, and the search itself is a queue that is worked off: the node in front
is visited, and what it leads to is put at the end.

* `Ty.Carries`, `Body.HoldsType`, `Body.HoldsNode` : what stands in the fields of types and nodes; `Store.Leads` : one
  step down, to a node in a field or to the declaration of an inline type at any depth;
* `Store.Drains s queue visited` : the queue is worked off after the visits listed; `drains_reached` : it is worked off
  below every node that no way leads back to;
* `Store.Wants s id symbol` : a reference at a node names a symbol that no node documents;
* `search_exact` : a search comes to its end and lists, each once, exactly the symbols wanted below its root.
-/

namespace DocTree

open Relation (ReflTransGen TransGen)

/-! ## What stands in fields -/

/-- A type stands in a field of another one. -/
inductive Ty.Carries : Ty → Ty → Prop
  | argument {t : Ty} {args : List Ty} {name package : Value} {link : Link} :
    t ∈ args → Carries (.reference name link args package) t
  | element {t : Ty} : Carries (.array t) t
  | joined {t : Ty} {ts : List Ty} : t ∈ ts → Carries (.union ts) t
  | met {t : Ty} {ts : List Ty} : t ∈ ts → Carries (.intersection ts) t
  | listed {t : Ty} {ts : List Ty} : t ∈ ts → Carries (.tuple ts) t
  | named {t : Ty} {name isOptional : Value} : Carries (.namedMember name isOptional t) t
  | optional {t : Ty} : Carries (.optional t) t
  | rest {t : Ty} : Carries (.rest t) t
  | check {t bound whenTrue whenFalse : Ty} : Carries (.conditional t bound whenTrue whenFalse) t
  | bound {check t whenTrue whenFalse : Ty} : Carries (.conditional check t whenTrue whenFalse) t
  | whenTrue {check bound t whenFalse : Ty} : Carries (.conditional check bound t whenFalse) t
  | whenFalse {check bound whenTrue t : Ty} : Carries (.conditional check bound whenTrue t) t
  | object {t index : Ty} : Carries (.indexedAccess t index) t
  | index {object t : Ty} : Carries (.indexedAccess object t) t
  | constraint {t : Ty} {name : Value} : Carries (.inferred name (some t)) t
  | domain {t body : Ty} {parameter : Value} {newName : Option Ty} : Carries (.mapped parameter t body newName) t
  | body {domain t : Ty} {parameter : Value} {newName : Option Ty} : Carries (.mapped parameter domain t newName) t
  | newName {domain body t : Ty} {parameter : Value} : Carries (.mapped parameter domain body (some t)) t
  | asserted {t : Ty} {name asserts : Value} : Carries (.predicate name asserts (some t)) t
  | asked {t : Ty} : Carries (.query t) t
  | operand {t : Ty} {name : Value} : Carries (.operator name t) t
  | hole {t : Ty} {text head : Value} {tail : List (Ty × Value)} : (t, text) ∈ tail → Carries (.template head tail) t

theorem Ty.carries_iff {t u : Ty} : t.Carries u ↔ u ∈ t.children := by
  constructor
  · intro h
    cases h with
    | hole mem => exact List.mem_map.2 ⟨_, mem, rfl⟩
    | _ => simp_all [children]
  · intro h
    cases t with
    | intrinsic _ | literal _ | unknown _ | inline _ | absent => cases h
    | reference _ _ _ _ => exact .argument h
    | union _ => exact .joined h
    | intersection _ => exact .met h
    | tuple _ => exact .listed h
    | array _ => exact List.mem_singleton.1 h ▸ .element
    | optional _ => exact List.mem_singleton.1 h ▸ .optional
    | rest _ => exact List.mem_singleton.1 h ▸ .rest
    | query _ => exact List.mem_singleton.1 h ▸ .asked
    | operator _ _ => exact List.mem_singleton.1 h ▸ .operand
    | namedMember _ _ _ => exact List.mem_singleton.1 h ▸ .named
    | conditional _ _ _ _ =>
      simp only [children, List.mem_cons, List.not_mem_nil, or_false] at h
      rcases h with rfl | rfl | rfl | rfl
      · exact .check
      · exact .bound
      · exact .whenTrue
      · exact .whenFalse
    | indexedAccess _ _ =>
      simp only [children, List.mem_cons, List.not_mem_nil, or_false] at h
      rcases h with rfl | rfl
      · exact .object
      · exact .index
    | inferred _ _ =>
      obtain rfl := Option.mem_toList.1 h
      exact .constraint
    | predicate _ _ _ =>
      obtain rfl := Option.mem_toList.1 h
      exact .asserted
    | mapped _ _ _ _ =>
      simp only [children, List.mem_cons, Option.mem_toList] at h
      rcases h with rfl | rfl | rfl
      · exact .domain
      · exact .body
      · exact .newName
    | template _ _ =>
      obtain ⟨⟨_, text⟩, mem, rfl⟩ := List.mem_map.1 h
      exact .hole mem

/-- The types inside a type are those that one gets to from field to field. -/
theorem Ty.mem_nested_iff {t u : Ty} : u ∈ t.nested ↔ ReflTransGen Carries t u := by
  constructor
  · intro mem
    induction t using children_induction with
    | step t ih =>
      rw [nested_eq] at mem
      rcases List.mem_cons.1 mem with rfl | deeper
      · exact .refl
      · obtain ⟨c, child, inside⟩ := List.mem_flatMap.1 deeper
        exact .head (carries_iff.2 child) (ih c child inside)
  · intro way
    induction way with
    | refl => exact mem_nested_self t
    | tail _ last ih => exact mem_nested_of_children ih (carries_iff.1 last)

namespace Body

/-- A node stands in a field of a node. -/
inductive HoldsNode : Body → NodeId → Prop
  | top {id : NodeId} {children : List NodeId} : id ∈ children → HoldsNode (.project children) id
  | child {id : NodeId} {b : DeclarationBody} : id ∈ b.children → HoldsNode (.declaration b) id
  | typeParameter {id : NodeId} {b : DeclarationBody} : id ∈ b.typeParameters → HoldsNode (.declaration b) id
  | signature {id : NodeId} {b : DeclarationBody} : id ∈ b.signatures → HoldsNode (.declaration b) id
  | indexSignature {id : NodeId} {b : DeclarationBody} : id ∈ b.indexSignatures → HoldsNode (.declaration b) id
  | getSignature {id : NodeId} {b : DeclarationBody} : b.getSignature = some id → HoldsNode (.declaration b) id
  | setSignature {id : NodeId} {b : DeclarationBody} : b.setSignature = some id → HoldsNode (.declaration b) id
  | parameter {id : NodeId} {b : SignatureBody} : id ∈ b.parameters → HoldsNode (.signature b) id
  | ofSignature {id : NodeId} {b : SignatureBody} : id ∈ b.typeParameters → HoldsNode (.signature b) id

/-- A type stands in a field of a node, other than those for what extends or implements it. -/
inductive HoldsType : Body → Ty → Prop
  | declared {t : Ty} {b : DeclarationBody} : b.type = some t → HoldsType (.declaration b) t
  | overwritten {t : Ty} {b : DeclarationBody} : b.overwrites = some t → HoldsType (.declaration b) t
  | inherited {t : Ty} {b : DeclarationBody} : b.inheritedFrom = some t → HoldsType (.declaration b) t
  | implementation {t : Ty} {b : DeclarationBody} : b.implementationOf = some t → HoldsType (.declaration b) t
  | extended {t : Ty} {b : DeclarationBody} : t ∈ b.extendedTypes → HoldsType (.declaration b) t
  | implemented {t : Ty} {b : DeclarationBody} : t ∈ b.implementedTypes → HoldsType (.declaration b) t
  | returned {t : Ty} {b : SignatureBody} : b.type = some t → HoldsType (.signature b) t
  | overwrittenBy {t : Ty} {b : SignatureBody} : b.overwrites = some t → HoldsType (.signature b) t
  | inheritedBy {t : Ty} {b : SignatureBody} : b.inheritedFrom = some t → HoldsType (.signature b) t
  | implementedBy {t : Ty} {b : SignatureBody} : b.implementationOf = some t → HoldsType (.signature b) t
  | taken {t : Ty} {b : ParameterBody} : b.type = some t → HoldsType (.parameter b) t
  | constraint {t : Ty} {b : TypeParameterBody} : b.constraint = some t → HoldsType (.typeParameter b) t
  | fallback {t : Ty} {b : TypeParameterBody} : b.fallback = some t → HoldsType (.typeParameter b) t

end Body

namespace Node

theorem holdsNode_iff {n : Node} {id : NodeId} : n.body.HoldsNode id ↔ Part.node id ∈ n.parts := by
  obtain ⟨name, kind, parent, body⟩ := n
  constructor
  · intro h
    cases h <;> simp_all [parts]
  · intro h
    cases body <;> simp [parts] at h
    case project children => exact .top h
    case declaration b =>
      rcases h with h | h | h | h | h | h
      · exact .child h
      · exact .typeParameter h
      · exact .signature h
      · exact .indexSignature h
      · exact .getSignature h
      · exact .setSignature h
    case signature b =>
      rcases h with h | h
      · exact .parameter h
      · exact .ofSignature h

theorem holdsType_iff {n : Node} {t : Ty} : n.body.HoldsType t ↔ Part.type t ∈ n.parts := by
  obtain ⟨name, kind, parent, body⟩ := n
  constructor
  · intro h
    cases h <;> simp_all [parts]
  · intro h
    cases body <;> simp [parts] at h
    case declaration b =>
      rcases h with h | h | h | h | h | h
      · exact .declared h
      · exact .overwritten h
      · exact .inherited h
      · exact .implementation h
      · exact .extended h
      · exact .implemented h
    case signature b =>
      rcases h with h | h | h | h
      · exact .returned h
      · exact .overwrittenBy h
      · exact .inheritedBy h
      · exact .implementedBy h
    case parameter b => exact .taken h
    case typeParameter b =>
      rcases h with h | h
      · exact .constraint h
      · exact .fallback h

end Node

namespace Store

/-! ## Below a node -/

/-- A node is one step below another one: it stands in a field, or a type there declares it inline. -/
def Leads (s : Store) (a b : NodeId) : Prop :=
  (s.node a).body.HoldsNode b ∨ ∃ t, (s.node a).body.HoldsType t ∧ ReflTransGen Ty.Carries t (.inline b)

theorem leads_iff {s : Store} {a b : NodeId} : s.Leads a b ↔ b ∈ (s.node a).successors := by
  have inlines (t : Ty) : b ∈ t.inlines ↔ ReflTransGen Ty.Carries t (.inline b) := by
    rw [← Ty.mem_nested_iff, Ty.inlines, List.mem_filterMap]
    constructor
    · rintro ⟨u, mem, eq⟩
      cases u <;> cases eq
      exact mem
    · intro mem
      exact ⟨_, mem, rfl⟩
  simp only [Leads, Node.mem_successors, Node.holdsNode_iff, Node.holdsType_iff, inlines]

theorem leads_eq (s : Store) : s.Leads = fun x y => y ∈ (s.node x).successors := by
  funext x y
  exact propext leads_iff

theorem reaches_iff {s : Store} {a b : NodeId} : s.Reaches a b ↔ ReflTransGen s.Leads a b := by
  rw [leads_eq, Reaches]

/-- No way below a node leads back to where it came from. -/
def Acyclic (s : Store) (root : NodeId) : Prop :=
  ∀ id, ReflTransGen s.Leads root id → ¬TransGen s.Leads id id

/-- Every type below a node is there, with all its parts. -/
def Shaped (s : Store) (root : NodeId) : Prop :=
  ∀ id, ReflTransGen s.Leads root id → ∀ t, (s.node id).body.HoldsType t → ¬ReflTransGen Ty.Carries t .absent

theorem shaped_iff {s : Store} {root : NodeId} : s.Shaped root ↔ s.isSearchable root = true := by
  have complete (t : Ty) : t.isComplete = true ↔ ¬ReflTransGen Ty.Carries t .absent := by
    rw [← Ty.mem_nested_iff, Ty.isComplete, List.all_eq_true]
    constructor
    · intro all mem
      cases all _ mem
    · intro none u mem
      cases u with
      | absent => exact absurd mem none
      | _ => rfl
  simp only [Shaped, isSearchable, List.all_eq_true, mem_reached_iff, reaches_iff, Node.isComplete_iff, complete,
    Node.holdsType_iff]

/-! ## Working off a queue -/

/-- A queue is worked off after some visits, in this order: what the node in front leads to is put at the end. -/
inductive Drains (s : Store) : List NodeId → List NodeId → Prop
  | done : Drains s [] []
  | visit {id : NodeId} {queue visited : List NodeId} :
    Drains s (queue ++ (s.node id).successors) visited → Drains s (id :: queue) (id :: visited)

/-- What stands in front of a queue is visited first, and leaves behind what it leads to. -/
theorem Drains.front {s : Store} {level queue visited : List NodeId}
    (rest : s.Drains (queue ++ level.flatMap fun id => (s.node id).successors) visited) :
    s.Drains (level ++ queue) (level ++ visited) := by
  induction level generalizing queue with
  | nil => simpa using rest
  | cons id level ih =>
    have later : s.Drains (level ++ (queue ++ (s.node id).successors)) (level ++ visited) := by
      apply ih
      rwa [List.flatMap_cons, ← List.append_assoc] at rest
    rw [← List.append_assoc] at later
    exact .visit later

theorem drains_levels {s : Store} {depth : Nat} {level : List NodeId}
    (short : ∀ a ∈ level, ∀ n b, StepsTo (fun x y => y ∈ (s.node x).successors) n a b → n < depth) :
    s.Drains level (s.levels depth level) := by
  induction depth generalizing level with
  | zero =>
    cases level with
    | nil => exact .done
    | cons a level => exact absurd (short a List.mem_cons_self 0 a (.refl a)) (Nat.not_lt_zero 0)
  | succ depth ih =>
    cases level with
    | nil => exact .done
    | cons a level =>
      have below : s.Drains ((a :: level).flatMap fun id => (s.node id).successors) _ := ih fun c mem n b path => by
        obtain ⟨d, here, step⟩ := List.mem_flatMap.1 mem
        exact Nat.lt_of_succ_lt_succ (short d here (n + 1) b (.head step path))
      have front : s.Drains (a :: level ++ []) (s.levels (depth + 1) (a :: level)) := .front below
      rwa [List.append_nil] at front

end Store

/-- Where no way leads back, none is longer than there are places to step from. -/
theorem StepsTo.le_card {α : Type*} {r : α → α → Prop} {n : Nat} {a b : α} (sources : Finset α)
    (inside : ∀ x y, r x y → x ∈ sources) (acyclic : ∀ x, ReflTransGen r a x → ¬TransGen r x x)
    (path : StepsTo r n a b) : n ≤ sources.card := by
  classical
  -- Each step leaves a place that cannot be reached any more.
  suffices h : n ≤ (sources.filter (ReflTransGen r a)).card from h.trans (Finset.card_filter_le _ _)
  induction path with
  | refl a => exact Nat.zero_le _
  | @head n a c b first rest ih =>
    have fewer : sources.filter (ReflTransGen r c) ⊂ sources.filter (ReflTransGen r a) := by
      refine (Finset.ssubset_iff_of_subset fun x mem => ?_).2 ⟨a, ?_, fun mem => ?_⟩
      · obtain ⟨here, way⟩ := Finset.mem_filter.1 mem
        exact Finset.mem_filter.2 ⟨here, .head first way⟩
      · exact Finset.mem_filter.2 ⟨inside a c first, .refl⟩
      · exact acyclic a .refl (.head' first (Finset.mem_filter.1 mem).2)
    have bound := ih fun x way => acyclic x (.head first way)
    have := Finset.card_lt_card fewer
    omega

namespace Store

/-- The queue is worked off below every node that no way leads back to, with the visits of a search. -/
theorem drains_reached {s : Store} {root : NodeId} (acyclic : s.Acyclic root) : s.Drains [root] (s.reached root) := by
  apply drains_levels
  intro a mem n b path
  rw [List.mem_singleton.1 mem, ← leads_eq] at path
  have bound := path.le_card (Finset.range s.nodes.size)
    (fun x y step => Finset.mem_range.2 (lt_of_mem_successors (leads_iff.1 step))) acyclic
  rw [Finset.card_range] at bound
  omega

/-! ## What is found -/

/-- No node documents the symbol that a link names: it names it through no project, or through one in which the symbol
has no registered node. -/
inductive Unmet (s : Store) : Link → SymbolId → Prop
  | loose (symbol : SymbolId) : Unmet s (.loose symbol) symbol
  | unregistered {project : NodeId} {symbol : SymbolId} :
    (s.index project).nodeOf? symbol = none → Unmet s (.symbol project symbol) symbol

theorem unmet_iff {s : Store} {link : Link} {symbol : SymbolId} :
    s.Unmet link symbol ↔ s.missingSymbol link = some symbol := by
  constructor
  · intro h
    cases h with
    | loose => rfl
    | unregistered none => simp [missingSymbol, resolve, none]
  · intro eq
    cases link with
    | external | node _ _ => cases eq
    | loose other =>
      cases eq
      exact .loose symbol
    | symbol project other =>
      simp only [missingSymbol, resolve, Option.isNone_iff_eq_none] at eq
      split at eq
      · cases eq
        exact .unregistered ‹_›
      · cases eq

/-- A node holds, at any depth of a type, a reference to a symbol that no node documents. -/
def Wants (s : Store) (id : NodeId) (symbol : SymbolId) : Prop :=
  ∃ t, (s.node id).body.HoldsType t ∧
    ∃ name link args package, ReflTransGen Ty.Carries t (.reference name link args package) ∧ s.Unmet link symbol

theorem wants_iff {s : Store} {id : NodeId} {symbol : SymbolId} :
    s.Wants id symbol ↔ ∃ link ∈ (s.node id).links, s.missingSymbol link = some symbol := by
  constructor
  · rintro ⟨t, held, name, link, args, package, way, unmet⟩
    have inside : link ∈ t.links := List.mem_filterMap.2 ⟨_, Ty.mem_nested_iff.2 way, rfl⟩
    exact ⟨link, Node.mem_links.2 ⟨t, Node.holdsType_iff.1 held, inside⟩, unmet_iff.1 unmet⟩
  · rintro ⟨link, mem, eq⟩
    obtain ⟨t, held, inside⟩ := Node.mem_links.1 mem
    obtain ⟨u, nested, same⟩ := List.mem_filterMap.1 inside
    cases u <;> cases same
    exact ⟨t, Node.holdsType_iff.2 held, _, _, _, _, Ty.mem_nested_iff.1 nested, unmet_iff.2 eq⟩

/-- A search is exact. Below a root that no way leads back to, with every type in its place, the queue is worked
off, and the symbols met on the visits are listed, each once: exactly those that some node below the root wants. -/
theorem search_exact (s : Store) (root : NodeId) (acyclic : s.Acyclic root) (shaped : s.Shaped root) :
    ∃ visited found, s.Drains [root] visited ∧ s.search root = .ok found ∧
      found = firsts ((visited.flatMap fun id => (s.node id).links).filterMap s.missingSymbol) ∧ found.Nodup ∧
      ∀ symbol, symbol ∈ found ↔ ∃ id, ReflTransGen s.Leads root id ∧ s.Wants id symbol := by
  have answer : s.search root = .ok (s.missing root) := by
    rw [search, shaped_iff.1 shaped]
    rfl
  refine ⟨s.reached root, s.missing root, drains_reached acyclic, answer, rfl, nodup_missing s root, fun symbol => ?_⟩
  simp only [mem_missing_iff, reaches_iff, wants_iff]

/-! ## A stall -/

/-- A stall that sells from a stock. The stock refers to crates, whose node is not listed any more, to the stall
itself, and inline to labels; the price of a sale refers to a symbol of no project, and so does what implements it. -/
def stall : Store where
  nodes := #[
    ⟨.str "stall", .project, none, .project [1, 2]⟩,
    ⟨.str "sell", .classKind, some 0, .declaration
      { signatures := [3], implementedBy := [.reference (.str "Rival") (.loose 5) [] .null] }⟩,
    ⟨.str "stock", .property, some 0, .declaration
      { type := some (.array (.union [.reference (.str "Crate") (.symbol 0 0) [.inline 5] .null,
          .reference (.str "Stall") (.symbol 0 1) [] .null])) }⟩,
    ⟨.str "sell", .callSignature, some 1, .signature { parameters := [4] }⟩,
    ⟨.str "price", .parameter, some 3, .parameter { type := some (.reference (.str "Price") (.loose 2) [] .null) }⟩,
    ⟨.str "__type", .typeLiteral, none, .declaration
      { extendedTypes := [.tuple [.reference (.str "Label") (.symbol 0 3) [] .null]] }⟩]
  symbols := #[]
  indexes := OrdMap.empty.insert 0
    { listed := (OrdMap.empty.insert 0 ()).insert 1 ()
      bound := (OrdMap.empty.insert 0 6).insert 1 1
      symbols := OrdMap.empty.insert 1 [1] }
  strays := .empty

theorem acyclic_of_lt {s : Store} (later : ∀ a < s.nodes.size, ∀ b ∈ (s.node a).successors, a < b) (root : NodeId) :
    s.Acyclic root := by
  intro id _ way
  have step {a b : NodeId} (h : s.Leads a b) : a < b :=
    have mem := leads_iff.1 h
    later a (lt_of_mem_successors mem) b mem
  have above : ∀ {b}, TransGen s.Leads id b → id < b := by
    intro b way
    induction way with
    | single first => exact step first
    | tail _ last ih => exact ih.trans (step last)
  exact Nat.lt_irrefl id (above way)

/-- Three symbols are wanted in the stall, and found in the order of the visits. -/
theorem search_exact_stall : stall.Acyclic 0 ∧ stall.Shaped 0 ∧ stall.search 0 = .ok [0, 3, 2] ∧
    ∃ visited found, stall.Drains [0] visited ∧ stall.search 0 = .ok found ∧
      found = firsts ((visited.flatMap fun id => (stall.node id).links).filterMap stall.missingSymbol) ∧ found.Nodup ∧
      ∀ symbol, symbol ∈ found ↔ ∃ id, ReflTransGen stall.Leads 0 id ∧ stall.Wants id symbol := by
  have acyclic : stall.Acyclic 0 := acyclic_of_lt (by decide) 0
  have shaped : stall.Shaped 0 := shaped_iff.2 (by decide)
  exact ⟨acyclic, shaped, by rfl, search_exact stall 0 acyclic shaped⟩

end Store

end DocTree
