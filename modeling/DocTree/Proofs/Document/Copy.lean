import DocTree.Document.Load
import DocTree.Proofs.Outcome
import DocTree.Proofs.Renumber.Data
import DocTree.Proofs.Store.Grow

/-!
# Reading adds, and adds the same everywhere

What is read off a description does not depend on how many nodes and symbols there are: elsewhere the
same is added, under other numbers.

* `Workspace.extended` : a workspace with nodes and symbols added;
* `Node.Plain` : a node that refers to no declaration that it takes after;
* `Copies act scope x y` : `x` only adds, and wherever `y` is started, it adds the same and comes to the
  same, renumbered; `Copies.bind`;
* `build_copies`, `readType_copies`, `describe_copies` : reading copies.
-/

namespace DocTree

/-- The workspace with nodes and symbols added. -/
def Workspace.extended (w : Workspace) (ns : List Node) (ss : List Symbol) : Workspace :=
  { w with store := { w.store with nodes := w.store.nodes ++ ns, symbols := w.store.symbols ++ ss } }

namespace Workspace

theorem extended_nil (w : Workspace) : w.extended [] [] = w := by
  have none : ∀ {α : Type} (xs : Array α), xs ++ ([] : List α) = xs := fun xs =>
    Array.toList_inj.1 (Array.toList_appendList.trans (List.append_nil _))
  unfold extended
  rw [none, none]

theorem extended_extended (w : Workspace) (ns ns' : List Node) (ss ss' : List Symbol) :
    (w.extended ns ss).extended ns' ss' = w.extended (ns ++ ns') (ss ++ ss') := by
  have assoc : ∀ {α : Type} (xs : Array α) (ys zs : List α), xs ++ ys ++ zs = xs ++ (ys ++ zs) := fun xs ys zs =>
    Array.toList_inj.1 (by simp only [Array.toList_appendList, List.append_assoc])
  simp only [extended, assoc]

theorem nodes_extended (w : Workspace) (ns : List Node) (ss : List Symbol) :
    (w.extended ns ss).store.nodes.toList = w.store.nodes.toList ++ ns := Array.toList_appendList

theorem symbols_extended (w : Workspace) (ns : List Node) (ss : List Symbol) :
    (w.extended ns ss).store.symbols.toList = w.store.symbols.toList ++ ss := Array.toList_appendList

theorem size_nodes_extended (w : Workspace) (ns : List Node) (ss : List Symbol) :
    (w.extended ns ss).store.nodes.size = w.store.nodes.size + ns.length := by
  rw [← Array.length_toList, nodes_extended, List.length_append, Array.length_toList]

theorem size_symbols_extended (w : Workspace) (ns : List Node) (ss : List Symbol) :
    (w.extended ns ss).store.symbols.size = w.store.symbols.size + ss.length := by
  rw [← Array.length_toList, symbols_extended, List.length_append, Array.length_toList]

theorem extended_addNodes (w : Workspace) (ns : NodeId → List Node) :
    { w with store := (w.store.addNodes ns).2 } = w.extended (ns w.store.nodes.size) [] := by
  have none : w.store.symbols ++ ([] : List Symbol) = w.store.symbols :=
    Array.toList_inj.1 (Array.toList_appendList.trans (List.append_nil _))
  unfold extended
  rw [none]
  rfl

theorem extended_addSymbol (w : Workspace) (s : Symbol) :
    { w with store := (w.store.addSymbol s).2 } = w.extended [] [s] := by
  have none : w.store.nodes ++ ([] : List Node) = w.store.nodes :=
    Array.toList_inj.1 (Array.toList_appendList.trans (List.append_nil _))
  have push : w.store.symbols.push s = w.store.symbols ++ [s] :=
    Array.toList_inj.1 (Array.toList_push.trans Array.toList_appendList.symm)
  unfold extended Store.addSymbol
  rw [none, ← push]

end Workspace

/-- A node that does not say which declaration it overwrites, inherits or implements. -/
def Node.Plain (n : Node) : Prop :=
  match n.body with
  | .declaration b => b.overwrites = none ∧ b.inheritedFrom = none ∧ b.implementationOf = none
  | .signature b => b.overwrites = none ∧ b.inheritedFrom = none ∧ b.implementationOf = none
  | _ => True

/-- Numbers that are free in one store become the numbers that are free in another one, in order. -/
structure Renumbering.Shifts (ρ : Renumbering) (s t : Store) (nodes symbols : Nat) : Prop where
  node : ∀ i < nodes, ρ.node (s.nodes.size + i) = t.nodes.size + i
  symbol : ∀ i < symbols, ρ.symbol (s.symbols.size + i) = t.symbols.size + i

namespace Document

open TypeExpr

/-- A scope in which names stand for the same, renumbered. -/
structure Scope.Renumbered (ρ : Renumbering) (scope scope' : Scope) : Prop where
  project : scope'.project = ρ.node scope.project
  name : scope'.program.name = scope.program.name
  symbols : ∀ key, scope'.program.symbols.find? key = (scope.program.symbols.find? key).map ρ.symbol
  hidden : scope'.hidden = scope.hidden

/-- What `x` adds are plain nodes and symbols; started elsewhere, `y` adds the same and comes to the same,
renumbered. -/
def Copies {α : Type} (act : Renumbering → α → α) (scope : Scope) (x : Load α) (y : Renumbering → Scope → Load α) :
    Prop :=
  ∀ ⦃w a w'⦄, x w = .ok a w' → ∃ ns ss, w' = w.extended ns ss ∧ (∀ n ∈ ns, n.Plain) ∧
    ∀ ⦃ρ scope' v⦄, scope.Renumbered ρ scope' → ρ.Shifts w.store v.store ns.length ss.length →
      y ρ scope' v = .ok (act ρ a) (v.extended (ns.map (Node.renumber ρ)) (ss.map (Symbol.renumber ρ)))

variable {α β : Type} {act : Renumbering → α → α} {act' : Renumbering → β → β} {scope : Scope} {x : Load α}
  {y : Renumbering → Scope → Load α}

theorem copies_pure (a : α) : Copies act scope (pure a) fun ρ _ => pure (act ρ a) := by
  intro w a' w' eq
  cases eq
  refine ⟨[], [], w.extended_nil.symm, List.forall_mem_nil _, fun ρ scope' v _ _ => ?_⟩
  show EStateM.Result.ok (act ρ a) v = _
  rw [List.map_nil, List.map_nil, v.extended_nil]

theorem copies_throw {e : Error} : Copies act scope (throw e) y := fun _ _ _ eq => nomatch eq

theorem Copies.bind {f : α → Load β} {h : Renumbering → Scope → α → Load β} (first : Copies act scope x y)
    (rest : ∀ a, Copies act' scope (f a) fun ρ scope' => h ρ scope' (act ρ a)) :
    Copies act' scope (x >>= f) fun ρ scope' => y ρ scope' >>= h ρ scope' := by
  intro w b w'' eq
  obtain ⟨a, w', eq, eq'⟩ := bind_ok eq
  obtain ⟨ns, ss, rfl, plain, same⟩ := first eq
  obtain ⟨ns', ss', rfl, plain', same'⟩ := rest a eq'
  refine ⟨ns ++ ns', ss ++ ss', w.extended_extended .., List.forall_mem_append.2 ⟨plain, plain'⟩,
    fun ρ scope' v fits shifts => ?_⟩
  rw [List.length_append, List.length_append] at shifts
  have early : ρ.Shifts w.store v.store ns.length ss.length :=
    ⟨fun i lt => shifts.node i (Nat.lt_add_right _ lt), fun i lt => shifts.symbol i (Nat.lt_add_right _ lt)⟩
  have late : ρ.Shifts (w.extended ns ss).store
      (v.extended (ns.map (Node.renumber ρ)) (ss.map (Symbol.renumber ρ))).store ns'.length ss'.length := by
    constructor
    · intro i lt
      have shifted := shifts.node (ns.length + i) (Nat.add_lt_add_left lt _)
      rwa [Workspace.size_nodes_extended, Workspace.size_nodes_extended, List.length_map, Nat.add_assoc, Nat.add_assoc]
    · intro i lt
      have shifted := shifts.symbol (ss.length + i) (Nat.add_lt_add_left lt _)
      rwa [Workspace.size_symbols_extended, Workspace.size_symbols_extended, List.length_map, Nat.add_assoc,
        Nat.add_assoc]
  have then' : h ρ scope' (act ρ a) (v.extended (ns.map (Node.renumber ρ)) (ss.map (Symbol.renumber ρ))) = _ :=
    same' fits late
  show (y ρ scope' >>= h ρ scope') v = _
  rw [bind_of_ok (same fits early), then', Workspace.extended_extended, List.map_append, List.map_append]

theorem Copies.hide {names : List String} (h : Copies act (scope.hide names) x y) :
    Copies act scope x fun ρ scope' => y ρ (scope'.hide names) := by
  intro w a w' eq
  obtain ⟨ns, ss, eq', plain, same⟩ := h eq
  refine ⟨ns, ss, eq', plain, fun ρ scope' v fits shifts => same ⟨fits.project, fits.name, fits.symbols, ?_⟩ shifts⟩
  show names ++ scope'.hidden = names ++ scope.hidden
  rw [fits.hidden]

/-! ## Names and inline types -/

theorem Scope.Renumbered.link {ρ : Renumbering} {scope' : Scope} (fits : scope.Renumbered ρ scope') (name : String) :
    scope'.link name = (scope.link name).renumber ρ := by
  unfold Scope.link
  rw [fits.hidden]
  split
  · rfl
  · rw [fits.symbols]
    cases scope.program.symbols.find? (.text name) with
    | none => rfl
    | some X =>
      simp only [Option.map_some, Link.renumber, fits.project]

theorem copies_bound (name : String) (args : List Ty) : Copies Ty.renumber scope (scope.builder.bind name args)
    fun ρ scope' => scope'.builder.bind name (args.map (Ty.renumber ρ)) := by
  intro w t w' eq
  cases eq
  refine ⟨[], [], w.extended_nil.symm, List.forall_mem_nil _, fun ρ scope' v fits _ => ?_⟩
  show EStateM.Result.ok (Ty.reference (.str name) (scope'.link name) (args.map (Ty.renumber ρ)) .null) v = _
  rw [List.map_nil, List.map_nil, v.extended_nil, fits.link, Ty.renumber, Ty.renumberAll_eq]

theorem map_range' {σ : NodeId → NodeId} {low low' count : Nat} (shift : ∀ i < count, σ (low + i) = low' + i) :
    (List.range' low count).map σ = List.range' low' count := by
  refine List.ext_getElem (by simp) fun i lt _ => ?_
  rw [List.length_map, List.length_range'] at lt
  simp [shift i lt]

theorem copies_inline {ns : NodeId → List Node} {ns' : Renumbering → NodeId → List Node} (some : ∀ id, ns id ≠ [])
    (plain : ∀ id, ∀ n ∈ ns id, n.Plain)
    (same : ∀ ρ id id', (∀ i < (ns id).length, ρ.node (id + i) = id' + i) →
      ns' ρ id' = (ns id).map (Node.renumber ρ)) :
    Copies Ty.renumber scope (scope.builder.inline ns) fun ρ scope' => scope'.builder.inline (ns' ρ) := by
  intro w t w' eq
  cases eq
  refine ⟨ns w.store.nodes.size, [], w.extended_addNodes ns, plain _, fun ρ scope' v fits shifts => ?_⟩
  have first : ρ.node w.store.nodes.size = v.store.nodes.size := shifts.node 0 (List.length_pos_iff.2 (some _))
  show EStateM.Result.ok (Ty.inline v.store.nodes.size)
    ({ v with store := (v.store.addNodes (ns' ρ)).2 } : Workspace) = _
  rw [v.extended_addNodes, same ρ _ _ shifts.node, Ty.renumber, List.map_nil, ← first]

theorem objectNodes_renumber {ρ : Renumbering} {id id' : NodeId} (members : List (String × Ty))
    (shift : ∀ i < (objectNodes id members).length, ρ.node (id + i) = id' + i) :
    objectNodes id' (members.map fun m => (m.1, m.2.renumber ρ)) = (objectNodes id members).map (Node.renumber ρ) := by
  unfold objectNodes at shift ⊢
  rw [List.length_cons, List.length_map] at shift
  have first : ρ.node id = id' := shift 0 (Nat.zero_lt_succ _)
  have children : (List.range' (id + 1) members.length).map ρ.node = List.range' (id' + 1) members.length := by
    refine map_range' fun i lt => ?_
    rw [Nat.add_right_comm id 1 i, Nat.add_right_comm id' 1 i]
    exact shift (i + 1) (Nat.succ_lt_succ lt)
  rw [List.map_cons, List.map_map, List.map_map, List.length_map]
  refine congrArg₂ List.cons ?_ (List.map_congr_left fun m _ => ?_)
  · simp only [Node.renumber, Body.renumber, children, Option.map_none, List.map_nil]
  · simp only [Function.comp, propertyNode, Node.renumber, Body.renumber, Option.map_some, Option.map_none,
      List.map_nil, first]

theorem functionNodes_renumber {ρ : Renumbering} {id id' : NodeId} (parameters : List ((String × Marks) × Ty))
    (result : Ty) (shift : ∀ i < (functionNodes id parameters result).length, ρ.node (id + i) = id' + i) :
    functionNodes id' (parameters.map fun p => (p.1, p.2.renumber ρ)) (result.renumber ρ) =
      (functionNodes id parameters result).map (Node.renumber ρ) := by
  unfold functionNodes at shift ⊢
  rw [List.length_cons, List.length_cons, List.length_map] at shift
  have first : ρ.node id = id' := shift 0 (Nat.zero_lt_succ _)
  have second : ρ.node (id + 1) = id' + 1 := shift 1 (Nat.succ_lt_succ (Nat.zero_lt_succ _))
  have children : (List.range' (id + 2) parameters.length).map ρ.node = List.range' (id' + 2) parameters.length := by
    refine map_range' fun i lt => ?_
    rw [Nat.add_right_comm id 2 i, Nat.add_right_comm id' 2 i]
    exact shift (i + 2) (Nat.succ_lt_succ (Nat.succ_lt_succ lt))
  rw [List.map_cons, List.map_cons, List.map_map, List.map_map, List.length_map]
  refine congrArg₂ List.cons ?_ (congrArg₂ List.cons ?_ (List.map_congr_left fun p _ => ?_))
  · simp only [Node.renumber, Body.renumber, List.map_cons, List.map_nil, Option.map_none, second]
  · simp only [Node.renumber, Body.renumber, children, Option.map_some, Option.map_none, List.map_nil, first]
  · simp only [Function.comp, TypeExpr.parameterNode, Node.renumber, Body.renumber, Option.map_some, second]

theorem plain_objectNodes (members : List (String × Ty)) (id : NodeId) : ∀ n ∈ objectNodes id members, n.Plain := by
  refine List.forall_mem_cons.2 ⟨⟨rfl, rfl, rfl⟩, fun n mem => ?_⟩
  obtain ⟨m, _, rfl⟩ := List.mem_map.1 mem
  exact ⟨rfl, rfl, rfl⟩

theorem plain_functionNodes (parameters : List ((String × Marks) × Ty)) (result : Ty) (id : NodeId) :
    ∀ n ∈ functionNodes id parameters result, n.Plain := by
  refine List.forall_mem_cons.2 ⟨⟨rfl, rfl, rfl⟩, List.forall_mem_cons.2 ⟨⟨rfl, rfl, rfl⟩, fun n mem => ?_⟩⟩
  obtain ⟨p, _, rfl⟩ := List.mem_map.1 mem
  exact True.intro

/-! ## Expressions -/

mutual

/-- The type of an expression is the same everywhere. -/
theorem build_copies (e : Expr) :
    Copies Ty.renumber scope (build scope.builder e) fun _ scope' => build scope'.builder e := by
  match e with
  | .name path args =>
    unfold build
    refine (buildAll_copies args).bind fun ts => ?_
    simp only [List.isEmpty_map]
    split
    · exact copies_pure _
    · exact copies_bound path ts
  | .literal value =>
    unfold build
    exact copies_pure _
  | .longNumber =>
    unfold build
    exact copies_throw
  | .query path =>
    unfold build
    refine (copies_bound path []).bind fun t => ?_
    have queried : ∀ ρ, queried path (t.renumber ρ) = (queried path t).renumber ρ := by
      intro ρ
      cases t with
      | inferred _ c => cases c <;> rfl
      | predicate _ _ c => cases c <;> rfl
      | mapped _ _ _ c => cases c <;> rfl
      | _ => rfl
    simp only [queried]
    exact copies_pure _
  | .operator word target =>
    unfold build
    exact (build_copies target).bind fun t => copies_pure _
  | .array element =>
    unfold build
    exact (build_copies element).bind fun t => copies_pure _
  | .union parts =>
    unfold build
    refine (buildAll_copies parts).bind fun ts => ?_
    simp only [← Ty.renumberAll_eq]
    exact copies_pure (Ty.union ts)
  | .intersection parts =>
    unfold build
    refine (buildAll_copies parts).bind fun ts => ?_
    simp only [← Ty.renumberAll_eq]
    exact copies_pure (Ty.intersection ts)
  | .tuple elements =>
    unfold build
    refine (buildAll_copies elements).bind fun ts => ?_
    simp only [← Ty.renumberAll_eq]
    exact copies_pure (Ty.tuple ts)
  | .object members =>
    unfold build
    refine (buildMembers_copies members).bind fun ms => ?_
    exact copies_inline (fun _ => List.cons_ne_nil _ _) (plain_objectNodes ms)
      fun ρ id id' shift => objectNodes_renumber ms shift
  | .function parameters result =>
    unfold build
    refine (buildParameters_copies parameters).bind fun ps => (build_copies result).bind fun r => ?_
    exact copies_inline (fun _ => List.cons_ne_nil _ _) (plain_functionNodes ps r)
      fun ρ id id' shift => functionNodes_renumber ps r shift

theorem buildAll_copies (es : List Expr) : Copies (fun ρ => List.map (Ty.renumber ρ)) scope
    (buildAll scope.builder es) fun _ scope' => buildAll scope'.builder es := by
  match es with
  | [] =>
    unfold buildAll
    exact copies_pure _
  | e :: es =>
    unfold buildAll
    exact (build_copies e).bind fun t => (buildAll_copies es).bind fun ts => copies_pure _

theorem buildMembers_copies (es : List (String × Expr)) :
    Copies (fun ρ => List.map fun m => (m.1, m.2.renumber ρ)) scope (buildMembers scope.builder es)
      fun _ scope' => buildMembers scope'.builder es := by
  match es with
  | [] =>
    unfold buildMembers
    exact copies_pure _
  | (name, e) :: es =>
    unfold buildMembers
    exact (build_copies e).bind fun t => (buildMembers_copies es).bind fun ts => copies_pure _

theorem buildParameters_copies (es : List ((String × Marks) × Expr)) :
    Copies (fun ρ => List.map fun p => (p.1, p.2.renumber ρ)) scope (buildParameters scope.builder es)
      fun _ scope' => buildParameters scope'.builder es := by
  match es with
  | [] =>
    unfold buildParameters
    exact copies_pure _
  | (name, e) :: es =>
    unfold buildParameters
    exact (build_copies e).bind fun t => (buildParameters_copies es).bind fun ts => copies_pure _

end

/-! ## Types -/

theorem readType_copies (path : String) (v : Value) :
    Copies Ty.renumber scope (readType scope path v) fun _ scope' => readType scope' path v := by
  unfold readType
  split
  · split
    · exact build_copies _
    · intro w a w' eq
      cases eq
  · exact copies_throw

theorem readType?_copies (path : String) (v : Option Value) :
    Copies (fun ρ => Option.map (Ty.renumber ρ)) scope (readType? scope path v) fun _ scope' =>
      readType? scope' path v := by
  unfold readType?
  split
  · exact copies_pure _
  · exact copies_pure _
  · exact (readType_copies path _).bind fun t => copies_pure _

theorem readTypes_copies (path : String) (vs : List Value) :
    Copies (fun ρ => List.map (Ty.renumber ρ)) scope (readTypes scope path vs) fun _ scope' =>
      readTypes scope' path vs := by
  induction vs with
  | nil => exact copies_pure _
  | cons v vs ih =>
    unfold readTypes
    exact (readType_copies path v).bind fun t => ih.bind fun ts => copies_pure _

/-! ## Descriptions -/

theorem readTypeParameter_copies (path name : String) (v : Value) :
    Copies TypeParameterShape.renumber scope (readTypeParameter scope path name v)
      fun _ scope' => readTypeParameter scope' path name v := by
  unfold readTypeParameter
  split
  · exact (readType?_copies path _).bind fun c => (readType?_copies path _).bind fun d => copies_pure _
  · exact (readType?_copies path _).bind fun c => copies_pure _

theorem readTypeParameterList_copies (path : String) (fields : List (String × Value)) :
    Copies (fun ρ => List.map (TypeParameterShape.renumber ρ)) scope (readTypeParameterList scope path fields)
      fun _ scope' => readTypeParameterList scope' path fields := by
  induction fields with
  | nil => exact copies_pure _
  | cons field fields ih =>
    unfold readTypeParameterList
    exact (readTypeParameter_copies _ _ _).bind fun s => ih.bind fun ss => copies_pure _

theorem readTypeParameters_copies (path : String) (v : Option Value) :
    Copies (fun ρ => List.map (TypeParameterShape.renumber ρ)) scope (readTypeParameters scope path v)
      fun _ scope' => readTypeParameters scope' path v := by
  unfold readTypeParameters
  split
  · exact copies_pure _
  · split
    · exact copies_pure _
    · split
      · exact (readTypeParameterList_copies path _).hide
      · exact copies_throw

/-- Type parameters have the same names whatever the numbers. -/
theorem Copies.within {shapes : List TypeParameterShape} (h : Copies act (scope.within shapes) x y) :
    Copies act scope x fun ρ scope' => y ρ (scope'.within (shapes.map (TypeParameterShape.renumber ρ))) := by
  have names : ∀ ρ, (shapes.map (TypeParameterShape.renumber ρ)).map (·.name.text) = shapes.map (·.name.text) := by
    intro ρ
    rw [List.map_map]
    rfl
  simp only [Scope.within, names]
  exact h.hide

theorem readParameterList_copies (path : String) (fields : List (String × Value)) :
    Copies (fun ρ => List.map (ParameterShape.renumber ρ)) scope (readParameterList scope path fields)
      fun _ scope' => readParameterList scope' path fields := by
  induction fields with
  | nil => exact copies_pure _
  | cons field fields ih =>
    unfold readParameterList
    exact (readType_copies _ _).bind fun t => ih.bind fun ss => copies_pure _

theorem readParameters_copies (path : String) (v : Option Value) :
    Copies (fun ρ => List.map (ParameterShape.renumber ρ)) scope (readParameters scope path v)
      fun _ scope' => readParameters scope' path v := by
  unfold readParameters
  split
  · exact copies_pure _
  · split
    · exact copies_pure _
    · split
      · exact readParameterList_copies path _
      · exact copies_throw

theorem readSignature_copies (path : String) (v : Value) :
    Copies SignatureShape.renumber scope (readSignature scope path v) fun _ scope' => readSignature scope' path v := by
  unfold readSignature
  split
  · refine (readTypeParameters_copies path _).bind fun tps => ?_
    exact (readParameters_copies path _).within.bind fun ps => (readType?_copies _ _).within.bind fun r => copies_pure _
  · exact copies_throw

theorem readSignatures_copies (path : String) (i : Nat) (vs : List Value) :
    Copies (fun ρ => List.map (SignatureShape.renumber ρ)) scope (readSignatures scope path i vs)
      fun _ scope' => readSignatures scope' path i vs := by
  induction vs generalizing i with
  | nil => exact copies_pure _
  | cons v vs ih =>
    unfold readSignatures
    exact (readSignature_copies _ v).bind fun s => (ih (i + 1)).bind fun ss => copies_pure _

theorem readKind_copies (path : String) (v : Value) :
    Copies (fun _ kind => kind) scope (readKind path v) fun _ _ => readKind path v := by
  unfold readKind
  split
  · split
    · split
      · exact copies_pure _
      · exact copies_throw
    · exact copies_throw
  · exact copies_throw

theorem parts_copies (v : Value) : Copies (fun _ vs => vs) scope (parts v) fun _ _ => parts v := by
  unfold parts
  split
  · exact copies_pure _
  · exact copies_throw

theorem listed_copies (v : Option Value) : Copies (fun _ vs => vs) scope (listed v) fun _ _ => listed v :=
  parts_copies _

theorem addSymbol_copies (name : Value) (kind : Kind) (d : Description) :
    Copies (fun ρ => ρ.symbol) scope (addSymbol ⟨name, kind, some scope.program.name, some d⟩)
      fun ρ scope' => addSymbol ⟨name, kind, some scope'.program.name, some (d.renumber ρ)⟩ := by
  intro w id w' eq
  cases eq
  refine ⟨[], [⟨name, kind, some scope.program.name, some d⟩], w.extended_addSymbol _, List.forall_mem_nil _,
    fun ρ scope' v fits shifts => ?_⟩
  have first : ρ.symbol w.store.symbols.size = v.store.symbols.size := shifts.symbol 0 Nat.zero_lt_one
  show EStateM.Result.ok v.store.symbols.size ({ v with store := (v.store.addSymbol _).2 } : Workspace) = _
  rw [v.extended_addSymbol, fits.name, ← first]
  rfl

theorem nameMembers_copies (names : List Value) : Copies (fun ρ => List.map ρ.symbol) scope (nameMembers scope names)
    fun _ scope' => nameMembers scope' names := by
  induction names with
  | nil => exact copies_pure _
  | cons name names ih =>
    unfold nameMembers
    exact (addSymbol_copies name .enumMember {}).bind fun id => ih.bind fun ids => copies_pure _

mutual

/-- A description is the same everywhere. -/
theorem describe_copies (scope : Scope) (path : String) (kind : Kind) (v : Value) :
    Copies Description.renumber scope (describe scope path kind v) fun _ scope' => describe scope' path kind v := by
  match v with
  | .object fields =>
    unfold describe
    refine (readTypeParameters_copies path _).bind fun tps => ?_
    refine (readType?_copies _ _).within.bind fun t => ?_
    refine (listed_copies _).bind fun vs => (readTypes_copies _ _).within.bind fun extended => ?_
    refine (listed_copies _).bind fun vs => (readTypes_copies _ _).within.bind fun implemented => ?_
    refine (listed_copies _).bind fun vs => (readSignatures_copies _ _ _).within.bind fun signatures => ?_
    exact (membersAmong_copies _ _ kind fields).within.bind fun members => copies_pure _
  | .null | .bool _ | .int _ | .float _ | .str _ | .list _ =>
    unfold describe
    exact copies_throw

theorem membersAmong_copies (scope : Scope) (path : String) (kind : Kind) (fields : List (String × Value)) :
    Copies (fun ρ => List.map ρ.symbol) scope (membersAmong scope path kind fields)
      fun _ scope' => membersAmong scope' path kind fields := by
  match fields with
  | [] =>
    unfold membersAmong
    exact copies_pure _
  | (key, v) :: rest =>
    unfold membersAmong
    split
    · exact members_copies scope path kind v
    · exact membersAmong_copies scope path kind rest

theorem members_copies (scope : Scope) (path : String) (kind : Kind) (v : Value) :
    Copies (fun ρ => List.map ρ.symbol) scope (members scope path kind v)
      fun _ scope' => members scope' path kind v := by
  match v with
  | .null =>
    unfold members
    exact copies_pure _
  | .object fields =>
    unfold members
    split
    · exact nameMembers_copies _
    · exact memberList_copies scope path fields
  | .bool _ | .int _ | .float _ | .str _ | .list _ =>
    unfold members
    split
    · exact (parts_copies _).bind fun vs => nameMembers_copies vs
    · exact copies_throw

theorem memberList_copies (scope : Scope) (path : String) (fields : List (String × Value)) :
    Copies (fun ρ => List.map ρ.symbol) scope (memberList scope path fields)
      fun _ scope' => memberList scope' path fields := by
  match fields with
  | [] =>
    unfold memberList
    exact copies_pure _
  | (raw, spec) :: rest =>
    unfold memberList
    split
    · refine (readType_copies _ _).bind fun t => ?_
      refine Copies.bind (addSymbol_copies _ .property { type := some t }) fun id => ?_
      exact (memberList_copies scope path rest).bind fun ids => copies_pure _
    · refine (readKind_copies _ spec).bind fun kind => (describe_copies scope _ kind spec).bind fun d => ?_
      refine (addSymbol_copies _ kind d).bind fun id => ?_
      exact (memberList_copies scope path rest).bind fun ids => copies_pure _

end

end Document

end DocTree
