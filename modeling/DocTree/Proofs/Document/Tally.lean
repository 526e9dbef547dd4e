import DocTree.Proofs.Document.Symbols
import Mathlib.Data.List.Perm.Subperm

/-!
# Who holds the nodes of a document

While a document is read, every inline declaration is built for one place: for a type that is just
being read, for the description of a symbol, or for another inline declaration.

* `Symbol.wraps`, `Store.held`, `Store.wrapped` : the nodes that descriptions and nodes hold;
* `Tallied s hand` : no node is held twice, those counted that the types at hand hold;
  `Tallied.addNodes`, `Tallied.addSymbol`, `Tallied.describe`;
* `build_gathers`, `describe_gathers`, `describePrograms_gathers` : reading keeps the tally.
-/

namespace DocTree

def Symbol.wraps (s : Symbol) : List NodeId := (s.description.map fun d => d.types.flatMap Ty.inlines).getD []

theorem Symbol.wraps_eq {s : Symbol} {d : Description} (described : s.description = some d) :
    s.wraps = d.types.flatMap Ty.inlines := by
  rw [wraps, described]
  rfl

namespace Store

/-- The nodes that nodes hold, inline declarations included. -/
def held (s : Store) : List NodeId := s.nodes.toList.flatMap Node.successors

/-- The inline declarations in the descriptions of symbols. -/
def wrapped (s : Store) : List NodeId := s.symbols.toList.flatMap Symbol.wraps

end Store

/-- No node is held twice: not by nodes, not by descriptions, and not by the types at hand. -/
structure Tallied (s : Store) (hand : List NodeId) : Prop where
  once : (s.held ++ s.wrapped ++ hand).Nodup
  inside : ∀ id ∈ s.held ++ s.wrapped ++ hand, id < s.nodes.size

variable {s t : Store} {hand hand' xs : List NodeId}

theorem Tallied.of_count (h : Tallied s hand) (size : s.nodes.size ≤ t.nodes.size)
    (less : ∀ id, (t.held ++ t.wrapped ++ hand').count id ≤ (s.held ++ s.wrapped ++ hand).count id) :
    Tallied t hand' := by
  obtain ⟨ids, perm, sub⟩ := List.subperm_iff_count.2 less
  refine ⟨perm.nodup_iff.1 (h.once.sublist sub), fun id mem => ?_⟩
  exact Nat.lt_of_lt_of_le (h.inside id (sub.subset (perm.mem_iff.2 mem))) size

theorem Tallied.perm (h : Tallied s hand) (perm : hand.Perm hand') : Tallied s hand' := by
  refine h.of_count (Nat.le_refl _) fun id => ?_
  simp only [List.count_append, perm.count_eq, Nat.le_refl]

/-- The types at hand go into new nodes, the first of which is held by what is at hand then. -/
theorem Tallied.addNodes (h : Tallied s (hand ++ xs)) {ns : NodeId → List Node} (some : ns s.nodes.size ≠ [])
    (once : ((ns s.nodes.size).flatMap Node.successors).Perm
      (List.range' (s.nodes.size + 1) ((ns s.nodes.size).length - 1) ++ xs)) :
    Tallied (s.addNodes ns).2 (hand ++ [s.nodes.size]) := by
  obtain ⟨n, length⟩ := Nat.exists_eq_add_one_of_ne_zero fun zero => some (List.length_eq_zero_iff.1 zero)
  rw [length, Nat.add_sub_cancel] at once
  have size : (s.addNodes ns).2.nodes.size = s.nodes.size + (n + 1) := length ▸ size_addNodes s ns
  have held : (s.addNodes ns).2.held = s.held ++ (ns s.nodes.size).flatMap Node.successors := by
    unfold Store.held
    rw [toList_addNodes, List.flatMap_append]
  have all : ((s.addNodes ns).2.held ++ (s.addNodes ns).2.wrapped ++ (hand ++ [s.nodes.size])).Perm
      ((s.held ++ s.wrapped ++ (hand ++ xs)) ++ List.range' s.nodes.size (n + 1)) := by
    rw [held, List.range'_succ, show (s.addNodes ns).2.wrapped = s.wrapped from rfl]
    refine List.perm_iff_count.2 fun id => ?_
    have once := List.perm_iff_count.1 once id
    simp only [List.count_append, List.count_cons, List.count_nil] at once ⊢
    omega
  refine ⟨all.nodup_iff.2 (List.nodup_append.2 ⟨h.once, List.nodup_range', fun a mem b mem' same => ?_⟩),
    fun id mem => ?_⟩
  · exact absurd (h.inside a mem) (Nat.not_lt_of_le (same ▸ (List.mem_range'_1.1 mem').1))
  · rw [size]
    rcases List.mem_append.1 (all.mem_iff.1 mem) with old | new
    · exact Nat.lt_add_right _ (h.inside id old)
    · exact (List.mem_range'_1.1 new).2

/-- The types at hand go into the description of a new symbol. -/
theorem Tallied.addSymbol {symbol : Symbol} (h : Tallied s (hand ++ symbol.wraps)) :
    Tallied (s.addSymbol symbol).2 hand := by
  refine h.of_count (Nat.le_refl _) fun id => ?_
  have wrapped : (s.addSymbol symbol).2.wrapped = s.wrapped ++ symbol.wraps := by
    show (s.symbols.push symbol).toList.flatMap Symbol.wraps = _
    rw [Array.toList_push, List.flatMap_append]
    exact congrArg _ (List.append_nil _)
  rw [wrapped, show (s.addSymbol symbol).2.held = s.held from rfl]
  simp only [List.count_append]
  omega

/-- The types at hand go into the description of a symbol that is there. -/
theorem Tallied.describe {d : Description} (h : Tallied s (hand ++ d.types.flatMap Ty.inlines)) (symbol : SymbolId) :
    Tallied (s.modifySymbol symbol fun s => { s with description := some d }) hand := by
  refine h.of_count (Nat.le_refl _) fun id => ?_
  have wrapped : ∀ symbols : List Symbol, ((symbols.modify symbol fun s => { s with description := some d }).flatMap
      Symbol.wraps).count id ≤ (symbols.flatMap Symbol.wraps).count id + (d.types.flatMap Ty.inlines).count id := by
    intro symbols
    induction symbols generalizing symbol with
    | nil => simp
    | cons s symbols ih =>
      cases symbol with
      | zero =>
        show ((d.types.flatMap Ty.inlines) ++ symbols.flatMap Symbol.wraps).count id ≤ _
        simp only [List.flatMap_cons, List.count_append]
        omega
      | succ symbol =>
        have ih := ih symbol
        simp only [List.modify_succ_cons, List.flatMap_cons, List.count_append] at ih ⊢
        omega
  have wrapped := wrapped s.symbols.toList
  rw [← Array.toList_modify] at wrapped
  simp only [List.count_append] at wrapped ⊢
  show s.held.count id + ((s.symbols.modify symbol _).toList.flatMap Symbol.wraps).count id + _ ≤ _
  unfold Store.wrapped
  omega

namespace Document

open TypeExpr

/-- Started with some declarations at hand, a computation ends with others at hand, whatever else there is; the
modules that are known stay the same. -/
def Gathers {α : Type} (before : List NodeId) (x : Load α) (after : α → List NodeId) : Prop :=
  ∀ (w : Workspace) (hand : List NodeId), Tallied w.store (hand ++ before) →
    Meets x w (fun a w' => Tallied w'.store (hand ++ after a) ∧ w'.known = w.known) Whatever

variable {α β : Type} {before : List NodeId} {x : Load α} {after : α → List NodeId}

theorem gathers_pure {a : α} (perm : before.Perm (after a)) : Gathers before (pure a) after :=
  fun _ hand tallied => meets_pure ⟨tallied.perm (perm.append_left hand), rfl⟩

theorem gathers_throw {e : Error} : Gathers before (throw e : Load α) after := fun _ _ _ => meets_throw trivial

theorem Gathers.bind {f : α → Load β} {last : β → List NodeId} (h : Gathers before x after)
    (h' : ∀ a, Gathers (after a) (f a) last) : Gathers before (x >>= f) last := by
  intro w hand tallied
  refine meets_bind (h w hand tallied) fun a w₁ ⟨tallied', known⟩ => ?_
  exact (h' a w₁ hand tallied').mono (fun _ _ ⟨tallied'', known'⟩ => ⟨tallied'', known'.trans known⟩)
    fun _ _ _ => trivial

theorem Gathers.frame (h : Gathers [] x after) (more : List NodeId) : Gathers more x fun a => more ++ after a := by
  intro w hand tallied
  have framed := h w (hand ++ more) ((List.append_nil (hand ++ more)).symm ▸ tallied)
  simp only [List.append_assoc] at framed
  exact framed

theorem gathers_of_still {P : Workspace → α → Workspace → Prop}
    (still : ∀ w, Meets x w (P w) Whatever) (same : ∀ {w a w'}, P w a w' → w' = w) (before : List NodeId) :
    Gathers before x fun _ => before :=
  fun w _ tallied => (still w).mono (fun _ _ h => (same h).symm ▸ ⟨tallied, rfl⟩) fun _ _ _ => trivial

theorem gathers_inline {scope : Scope} {ns : NodeId → List Node} {xs : List NodeId} (some : ∀ id, ns id ≠ [])
    (once : ∀ id, ((ns id).flatMap Node.successors).Perm (List.range' (id + 1) ((ns id).length - 1) ++ xs)) :
    Gathers xs (scope.builder.inline ns) Ty.inlines := by
  intro w hand tallied
  refine meets_bind (P := fun id w' => id = w.store.nodes.size ∧ w' = w.withNodes ns)
    (meets_modifyGet ⟨rfl, rfl⟩) ?_
  rintro id w' ⟨rfl, rfl⟩
  exact meets_pure ⟨tallied.addNodes (some _) (once _), rfl⟩

/-! ## Reading types -/

theorem successors_objectNodes (id : NodeId) (members : List (String × Ty)) :
    (objectNodes id members).flatMap Node.successors =
      List.range' (id + 1) members.length ++ members.flatMap fun m => m.2.inlines := by
  have properties : (members.map fun m => propertyNode id m.1 m.2).flatMap Node.successors =
      members.flatMap fun m => m.2.inlines := by
    rw [List.flatMap_map]
    refine List.flatMap_congr fun m _ => ?_
    simp [Node.successors, Node.parts, propertyNode]
  unfold objectNodes
  rw [List.flatMap_cons, properties]
  simp [Node.successors_eq, Node.parts, Node.flatMap_enters_node]

theorem successors_functionNodes (id : NodeId) (parameters : List ((String × Marks) × Ty)) (result : Ty) :
    (functionNodes id parameters result).flatMap Node.successors =
      List.range' (id + 1) (parameters.length + 1) ++
        (result.inlines ++ parameters.flatMap fun p => p.2.inlines) := by
  have inner : (parameters.map fun p => parameterNode (id + 1) p.1.1 p.1.2 p.2).flatMap Node.successors =
      parameters.flatMap fun p => p.2.inlines := by
    rw [List.flatMap_map]
    refine List.flatMap_congr fun p _ => ?_
    simp [Node.successors, Node.parts, parameterNode]
  unfold functionNodes
  rw [List.flatMap_cons, List.flatMap_cons, inner, List.range'_succ]
  simp [Node.successors_eq, Node.parts, Node.flatMap_enters_node, Part.enters, Nat.add_assoc]

mutual

/-- Building a type gathers the declarations in it. -/
theorem build_gathers (scope : Scope) (e : Expr) : Gathers [] (build scope.builder e) Ty.inlines := by
  match e with
  | .name path args =>
    unfold build
    refine (buildAll_gathers scope args).bind fun ts => ?_
    split
    · rename_i plain
      have none : ts = [] := List.isEmpty_iff.1 (Bool.and_eq_true_iff.1 plain).1
      exact none ▸ gathers_pure (.refl _)
    · exact gathers_pure (.of_eq (Ty.inlines_eq (.reference ..)).symm)
  | .literal value =>
    unfold build
    exact gathers_pure (.refl _)
  | .longNumber =>
    unfold build
    exact gathers_throw
  | .query path =>
    unfold build
    intro w hand tallied
    refine meets_bind (P := fun t w' => t = .reference (.str path) (scope.link path) [] .null ∧ w' = w)
      (meets_pure ⟨rfl, rfl⟩) ?_
    rintro t w' ⟨rfl, rfl⟩
    exact meets_pure ⟨tallied, rfl⟩
  | .operator word target =>
    unfold build
    refine (build_gathers scope target).bind fun t => gathers_pure (.of_eq ?_)
    simp [Ty.inlines_eq (.operator ..), Ty.children]
  | .array element =>
    unfold build
    refine (build_gathers scope element).bind fun t => gathers_pure (.of_eq ?_)
    simp [Ty.inlines_eq (.array _), Ty.children]
  | .union parts =>
    unfold build
    exact (buildAll_gathers scope parts).bind fun ts => gathers_pure (.of_eq (Ty.inlines_eq (.union ts)).symm)
  | .intersection parts =>
    unfold build
    exact (buildAll_gathers scope parts).bind fun ts => gathers_pure (.of_eq (Ty.inlines_eq (.intersection ts)).symm)
  | .tuple elements =>
    unfold build
    exact (buildAll_gathers scope elements).bind fun ts => gathers_pure (.of_eq (Ty.inlines_eq (.tuple ts)).symm)
  | .object members =>
    unfold build
    refine (buildMembers_gathers scope members).bind fun ms => ?_
    refine gathers_inline (fun _ => List.cons_ne_nil _ _) fun id => .of_eq ?_
    rw [successors_objectNodes, objectNodes, List.length_cons, List.length_map, Nat.add_sub_cancel]
  | .function parameters result =>
    unfold build
    refine (buildParameters_gathers scope parameters).bind fun ps => ?_
    refine ((build_gathers scope result).frame _).bind fun r => ?_
    refine gathers_inline (fun _ => List.cons_ne_nil _ _) fun id => ?_
    rw [successors_functionNodes, functionNodes, List.length_cons, List.length_cons, List.length_map,
      Nat.add_sub_cancel]
    exact List.perm_append_comm.append_left _

theorem buildAll_gathers (scope : Scope) (es : List Expr) :
    Gathers [] (buildAll scope.builder es) fun ts => ts.flatMap Ty.inlines := by
  match es with
  | [] =>
    unfold buildAll
    exact gathers_pure (.refl _)
  | e :: es =>
    unfold buildAll
    refine (build_gathers scope e).bind fun t => ?_
    exact ((buildAll_gathers scope es).frame _).bind fun ts => gathers_pure (.refl _)

theorem buildMembers_gathers (scope : Scope) (es : List (String × Expr)) :
    Gathers [] (buildMembers scope.builder es) fun ms => ms.flatMap fun m => m.2.inlines := by
  match es with
  | [] =>
    unfold buildMembers
    exact gathers_pure (.refl _)
  | (name, e) :: es =>
    unfold buildMembers
    refine (build_gathers scope e).bind fun t => ?_
    exact ((buildMembers_gathers scope es).frame _).bind fun ts => gathers_pure (.refl _)

theorem buildParameters_gathers (scope : Scope) (es : List ((String × Marks) × Expr)) :
    Gathers [] (buildParameters scope.builder es) fun ps => ps.flatMap fun p => p.2.inlines := by
  match es with
  | [] =>
    unfold buildParameters
    exact gathers_pure (.refl _)
  | (name, e) :: es =>
    unfold buildParameters
    refine (build_gathers scope e).bind fun t => ?_
    exact ((buildParameters_gathers scope es).frame _).bind fun ts => gathers_pure (.refl _)

end

theorem readType_gathers (scope : Scope) (path : String) (v : Value) :
    Gathers [] (readType scope path v) Ty.inlines := by
  unfold readType
  split
  · split
    · exact build_gathers scope _
    · exact fun w hand tallied =>
        meets_bind (P := fun _ _ => True) (meets_modify trivial) fun _ _ _ => meets_throw trivial
  · exact gathers_throw

/-- The declarations in types that may be left out. -/
def inlinesOf (t : Option Ty) : List NodeId := t.toList.flatMap Ty.inlines

theorem readType?_gathers (scope : Scope) (path : String) (v : Option Value) :
    Gathers [] (readType? scope path v) inlinesOf := by
  unfold readType?
  split
  · exact gathers_pure (.refl _)
  · exact gathers_pure (.refl _)
  · exact (readType_gathers scope path _).bind fun t => gathers_pure (.of_eq (List.append_nil _).symm)

theorem readTypes_gathers (scope : Scope) (path : String) (vs : List Value) :
    Gathers [] (readTypes scope path vs) fun ts => ts.flatMap Ty.inlines := by
  induction vs with
  | nil => exact gathers_pure (.refl _)
  | cons v vs ih =>
    unfold readTypes
    refine (readType_gathers scope path v).bind fun t => ?_
    exact (ih.frame _).bind fun ts => gathers_pure (.refl _)

/-! ## Reading descriptions -/

/-- The declarations in some types. -/
def inlinesIn (ts : List Ty) : List NodeId := ts.flatMap Ty.inlines

theorem readTypeParameter_gathers (scope : Scope) (path name : String) (v : Value) :
    Gathers [] (readTypeParameter scope path name v) fun shape => inlinesIn shape.types := by
  unfold readTypeParameter
  split
  · refine (readType?_gathers scope path _).bind fun c => ?_
    refine ((readType?_gathers scope path _).frame _).bind fun d => gathers_pure (.of_eq ?_)
    exact List.flatMap_append.symm
  · exact (readType?_gathers scope path _).bind fun c => gathers_pure (.of_eq (congrArg _ (List.append_nil _).symm))

theorem readTypeParameterList_gathers (scope : Scope) (path : String) (fields : List (String × Value)) :
    Gathers [] (readTypeParameterList scope path fields)
      fun shapes => inlinesIn (shapes.flatMap TypeParameterShape.types) := by
  induction fields with
  | nil => exact gathers_pure (.refl _)
  | cons field fields ih =>
    unfold readTypeParameterList
    refine (readTypeParameter_gathers scope _ _ _).bind fun c => ?_
    exact (ih.frame _).bind fun cs => gathers_pure (.of_eq List.flatMap_append.symm)

theorem readTypeParameters_gathers (scope : Scope) (path : String) (v : Option Value) :
    Gathers [] (readTypeParameters scope path v)
      fun shapes => inlinesIn (shapes.flatMap TypeParameterShape.types) := by
  unfold readTypeParameters
  split
  · exact gathers_pure (.refl _)
  · split
    · exact gathers_pure (.refl _)
    · split
      · exact readTypeParameterList_gathers _ path _
      · exact gathers_throw

theorem readParameterList_gathers (scope : Scope) (path : String) (fields : List (String × Value)) :
    Gathers [] (readParameterList scope path fields) fun shapes => inlinesIn (shapes.flatMap (·.type.toList)) := by
  induction fields with
  | nil => exact gathers_pure (.refl _)
  | cons field fields ih =>
    unfold readParameterList
    refine (readType_gathers scope _ _).bind fun t => ?_
    exact (ih.frame _).bind fun ts => gathers_pure (.refl _)

theorem readParameters_gathers (scope : Scope) (path : String) (v : Option Value) :
    Gathers [] (readParameters scope path v) fun shapes => inlinesIn (shapes.flatMap (·.type.toList)) := by
  unfold readParameters
  split
  · exact gathers_pure (.refl _)
  · split
    · exact gathers_pure (.refl _)
    · split
      · exact readParameterList_gathers scope path _
      · exact gathers_throw

theorem readSignature_gathers (scope : Scope) (path : String) (v : Value) :
    Gathers [] (readSignature scope path v) fun shape => inlinesIn shape.types := by
  unfold readSignature
  split
  · refine (readTypeParameters_gathers scope _ _).bind fun tps => ?_
    refine ((readParameters_gathers _ _ _).frame _).bind fun ps => ?_
    refine ((readType?_gathers _ _ _).frame _).bind fun r => gathers_pure (.of_eq ?_)
    simp only [SignatureShape.types, inlinesIn, inlinesOf, List.flatMap_append]
  · exact gathers_throw

theorem readSignatures_gathers (scope : Scope) (path : String) (i : Nat) (vs : List Value) :
    Gathers [] (readSignatures scope path i vs) fun shapes => inlinesIn (shapes.flatMap SignatureShape.types) := by
  induction vs generalizing i with
  | nil => exact gathers_pure (.refl _)
  | cons v vs ih =>
    unfold readSignatures
    refine (readSignature_gathers scope _ _).bind fun c => ?_
    exact ((ih (i + 1)).frame _).bind fun cs => gathers_pure (.of_eq List.flatMap_append.symm)

theorem listed_gathers (v : Option Value) (before : List NodeId) : Gathers before (listed v) fun _ => before :=
  gathers_of_still (fun _ => listed_meets v) (fun same => same) before

theorem addSymbol_gathers {s : Symbol} : Gathers s.wraps (addSymbol s) fun _ => [] := by
  intro w hand tallied
  refine meets_modifyGet ⟨?_, rfl⟩
  rw [List.append_nil]
  exact tallied.addSymbol

theorem nameMembers_gathers (scope : Scope) (names : List Value) :
    Gathers [] (nameMembers scope names) fun _ => [] := by
  induction names with
  | nil => exact gathers_pure (.refl _)
  | cons name names ih =>
    unfold nameMembers
    refine Gathers.bind (addSymbol_gathers (s := ⟨name, .enumMember, some scope.program.name, some {}⟩)) fun id => ?_
    exact ih.bind fun ids => gathers_pure (.refl _)

mutual

/-- Reading a description gathers the declarations in its types: those of its members are in their own. -/
theorem describe_gathers (scope : Scope) (path : String) (kind : Kind) (v : Value) :
    Gathers [] (describe scope path kind v) fun d => inlinesIn d.types := by
  match v with
  | .object fields =>
    unfold describe
    refine (readTypeParameters_gathers scope _ _).bind fun tps => ?_
    refine ((readType?_gathers _ _ _).frame _).bind fun t => ?_
    refine (listed_gathers _ _).bind fun vs => ?_
    refine ((readTypes_gathers _ _ _).frame _).bind fun ext => ?_
    refine (listed_gathers _ _).bind fun vs' => ?_
    refine ((readTypes_gathers _ _ _).frame _).bind fun imp => ?_
    refine (listed_gathers _ _).bind fun vs'' => ?_
    refine ((readSignatures_gathers _ _ _ _).frame _).bind fun sigs => ?_
    refine ((membersAmong_gathers _ _ kind fields).frame _).bind fun ms => gathers_pure ?_
    refine List.perm_iff_count.2 fun id => ?_
    simp only [Description.types, inlinesIn, inlinesOf, List.flatMap_append, List.count_append, List.count_nil]
    omega
  | .null | .bool _ | .int _ | .float _ | .str _ | .list _ =>
    unfold describe
    exact gathers_throw

theorem membersAmong_gathers (scope : Scope) (path : String) (kind : Kind) (fields : List (String × Value)) :
    Gathers [] (membersAmong scope path kind fields) fun _ => [] := by
  match fields with
  | [] =>
    unfold membersAmong
    exact gathers_pure (.refl _)
  | (key, v) :: rest =>
    unfold membersAmong
    split
    · exact members_gathers scope path kind v
    · exact membersAmong_gathers scope path kind rest

theorem members_gathers (scope : Scope) (path : String) (kind : Kind) (v : Value) :
    Gathers [] (members scope path kind v) fun _ => [] := by
  match v with
  | .null =>
    unfold members
    exact gathers_pure (.refl _)
  | .object fields =>
    unfold members
    split
    · exact nameMembers_gathers scope _
    · exact memberList_gathers scope path fields
  | .bool _ | .int _ | .float _ | .str _ | .list _ =>
    unfold members
    split
    · refine (gathers_of_still (fun _ => parts_meets _) (fun same => same.1) []).bind fun vs => ?_
      exact nameMembers_gathers scope _
    · exact gathers_throw

theorem memberList_gathers (scope : Scope) (path : String) (fields : List (String × Value)) :
    Gathers [] (memberList scope path fields) fun _ => [] := by
  match fields with
  | [] =>
    unfold memberList
    exact gathers_pure (.refl _)
  | (raw, spec) :: rest =>
    unfold memberList
    have next : ∀ id, Gathers [] (memberList scope path rest >>= fun ids => pure (id :: ids)) fun _ => [] :=
      fun id => (memberList_gathers scope path rest).bind fun ids => gathers_pure (.refl _)
    split
    · refine (readType_gathers scope _ _).bind fun t => ?_
      refine Gathers.bind ?_ next
      have wraps : Symbol.wraps ⟨.str (MarkedName.ofString raw).name, .property, some scope.program.name,
          some { type := some t }⟩ = t.inlines := by
        simp [Symbol.wraps, Description.types]
      exact wraps ▸ addSymbol_gathers
    · refine (gathers_of_still (fun _ => readKind_meets _ spec) (fun same => same) []).bind fun kind => ?_
      refine (describe_gathers scope _ kind spec).bind fun d => ?_
      exact Gathers.bind (addSymbol_gathers (s := ⟨_, kind, some scope.program.name, some d⟩)) next

end

theorem describeSymbols_gathers (scope : Scope) (pending : List Pending) :
    Gathers [] (describeSymbols scope pending) fun _ => [] := by
  induction pending with
  | nil => exact gathers_pure (.refl _)
  | cons p ps ih =>
    unfold describeSymbols
    simp only
    split
    · refine (describe_gathers scope p.path p.kind p.spec).bind fun d => ?_
      refine Gathers.bind (fun w hand tallied => meets_modify ⟨?_, rfl⟩) fun _ => ih
      rw [List.append_nil]
      exact tallied.describe p.symbol
    · exact ih

/-- Describing all symbols leaves nothing at hand: what was built is held by the descriptions. -/
theorem describePrograms_gathers (project : NodeId) (ps : List DeclaredProgram) :
    Gathers [] (describePrograms project ps) fun _ => [] := by
  induction ps with
  | nil => exact gathers_pure (.refl _)
  | cons p ps ih =>
    unfold describePrograms
    exact (describeSymbols_gathers _ p.pending).bind fun _ => ih

/-- Symbols that are just declared hold nothing. -/
theorem Declaring.tallied {specs : List (String × Value)} {w : Workspace} (h : Declaring specs w) :
    Tallied w.store [] := by
  obtain ⟨name, nodes⟩ := h.nodes
  have held : w.store.held = [] := by
    rw [Store.held, nodes]
    rfl
  have wrapped : w.store.wrapped = [] := by
    refine List.flatMap_eq_nil_iff.2 fun s mem => ?_
    obtain ⟨i, below, rfl⟩ := List.mem_iff_getElem.1 mem
    have blank := h.blank i
    rw [Store.symbol, ← Array.getElem?_toList, List.getElem?_eq_getElem below] at blank
    unfold Symbol.wraps
    rw [show w.store.symbols.toList[i].description = none from blank]
    rfl
  refine ⟨?_, ?_⟩
  · rw [held, wrapped]
    exact List.nodup_nil
  · rw [held, wrapped]
    exact List.forall_mem_nil _

/-- Once the programs of a document are loaded, no declaration is held twice, and no module is known. -/
theorem loadPrograms_tallies {specs : List (String × Value)} {w : Workspace} (source v : Value)
    (listed : ∀ programs, v = .object programs → ∀ p ∈ programs, ∀ f ∈ programSpecs p.2, f ∈ specs)
    (h : Declaring specs w) :
    Meets (loadPrograms source v) w (fun _ w' => Tallied w'.store [] ∧ w'.known = w.known) Whatever := by
  unfold loadPrograms
  split
  · rename_i programs
    refine meets_bind (declarePrograms_meets programs (listed programs rfl) h) fun ps w₁ declared => ?_
    obtain ⟨awaits, _⟩ := declared
    refine meets_bind (P := fun v w' => v = w₁ ∧ w' = w₁) (meets_get ⟨rfl, rfl⟩) fun v w' eq => ?_
    rw [eq.1, eq.2]
    exact (describePrograms_gathers w₁.project ps w₁ [] awaits.declaring.tallied).mono
      (fun _ w₂ gathered => ⟨gathered.1, gathered.2.trans awaits.known⟩) fun _ _ _ => trivial
  · exact meets_throw trivial

end Document

end DocTree
