import DocTree.Document.Types
import DocTree.Proofs.Document.Draft

/-!
# Types read from documents

* `Scope.Fits g scope` : a scope on the ground: its names stand for named symbols;
* `build_meets` : the type of an expression stays on the ground, its inline nodes are added;
* `readType_meets`, `readTypes_meets` : so do the types of a document.
-/

namespace DocTree.Document

open TypeExpr

/-- A scope whose names stand for symbols declared by name. -/
structure Scope.Fits (g : Ground) (scope : Scope) : Prop where
  project : scope.project = g.project
  symbols : ∀ {key symbol}, scope.program.symbols.find? key = some symbol → symbol < g.top

theorem Scope.Fits.hide {g : Ground} {scope : Scope} (h : scope.Fits g) (names : List String) :
    (scope.hide names).Fits g := ⟨h.project, h.symbols⟩

/-- What reading comes to: more is drafted, and the answer is as it should be on the ground so far. -/
def Reads {α : Type} (g : Ground) (w : Workspace) (P : Ground → α → Prop) (a : α) (w' : Workspace) : Prop :=
  Drafted g w w' ∧ P (g.upTo w'.store.nodes.size) a

/-- No matter what becomes of a failure. -/
def Whatever {ε σ : Type} (_ : ε) (_ : σ) : Prop := True

variable {g : Ground} {scope : Scope} {w w₁ : Workspace}

/-! ## The nodes of inline types -/

theorem inlineNodes_objectNodes {id : NodeId} {members : List (String × Ty)}
    (within : ∀ m ∈ members, m.2.Within g) : InlineNodes g id (objectNodes id members) := by
  have length : (objectNodes id members).length = members.length + 1 := by
    unfold objectNodes
    rw [List.length_cons, List.length_map]
  constructor
  · intro n here t mem
    rcases List.mem_cons.1 here with rfl | here
    · simp [Node.parts] at mem
    · obtain ⟨m, inside, rfl⟩ := List.mem_map.1 here
      simp [Node.parts, propertyNode] at mem
      exact mem ▸ within m inside
  · intro n here c mem
    rw [length]
    rcases List.mem_cons.1 here with rfl | here
    · simp only [Node.parts, Option.toList_none, List.append_nil, List.map_nil, List.mem_map, Part.node.injEq,
        exists_eq_right, List.mem_range'_1] at mem
      unfold NodeId at *
      omega
    · obtain ⟨m, inside, rfl⟩ := List.mem_map.1 here
      simp [Node.parts, propertyNode] at mem

theorem inlineNodes_functionNodes (id : NodeId) {parameters : List ((String × Marks) × Ty)} {result : Ty}
    (within : ∀ p ∈ parameters, p.2.Within g) (within' : result.Within g) :
    InlineNodes g id (functionNodes id parameters result) := by
  have length : (functionNodes id parameters result).length = parameters.length + 2 := by
    unfold functionNodes
    rw [List.length_cons, List.length_cons, List.length_map]
  constructor
  · intro n here t mem
    rcases List.mem_cons.1 here with rfl | here
    · simp [Node.parts] at mem
    · rcases List.mem_cons.1 here with rfl | here
      · simp [Node.parts] at mem
        exact mem ▸ within'
      · obtain ⟨p, inside, rfl⟩ := List.mem_map.1 here
        simp [Node.parts, TypeExpr.parameterNode] at mem
        exact mem ▸ within p inside
  · intro n here c mem
    rw [length]
    rcases List.mem_cons.1 here with rfl | here
    · simp [Node.parts] at mem
      unfold NodeId at *
      omega
    · rcases List.mem_cons.1 here with rfl | here
      · simp only [Node.parts, Option.toList_none, List.append_nil, List.mem_append, List.mem_map, Part.node.injEq,
          exists_eq_right, List.mem_range'_1, Option.toList_some, List.map_cons, List.map_nil, List.mem_singleton,
          reduceCtorEq, or_false] at mem
        unfold NodeId at *
        omega
      · obtain ⟨p, inside, rfl⟩ := List.mem_map.1 here
        simp [Node.parts, TypeExpr.parameterNode] at mem

/-! ## Names -/

theorem Scope.Fits.link (fits : scope.Fits g) (name : String) :
    scope.link name = .external ∨ ∃ symbol < g.top, scope.link name = .symbol g.project symbol := by
  unfold Scope.link
  split
  · exact Or.inl rfl
  · split
    · rename_i symbol eq
      exact Or.inr ⟨symbol, fits.symbols eq, by rw [fits.project]⟩
    · exact Or.inl rfl

theorem Scope.Fits.bound (fits : scope.Fits g) (name : String) {args : List Ty} {base : NodeId}
    (within : ∀ t ∈ args, t.Within (g.upTo base)) :
    (Ty.reference (.str name) (scope.link name) args .null).Within (g.upTo base) :=
  Ty.within_iff.2 ⟨fits.link name, within⟩

theorem inline_meets (drafting : Drafting g w) {ns : NodeId → List Node}
    (new : InlineNodes (g.upTo w.store.nodes.size) w.store.nodes.size (ns w.store.nodes.size))
    (some : ns w.store.nodes.size ≠ []) :
    Meets (scope.builder.inline ns) w (Reads g w fun g t => t.Within g) Whatever := by
  have drafted := drafting.addNodes new
  refine meets_bind (P := fun id w' => id = w.store.nodes.size ∧ w' = w.withNodes ns)
    (meets_modifyGet ⟨rfl, rfl⟩) ?_
  rintro id w' ⟨rfl, rfl⟩
  refine meets_pure ⟨drafted, Ty.within_iff.2 ⟨⟨?_, ?_⟩, List.forall_mem_nil _⟩⟩
  · show w.store.nodes.size < (w.store.addNodes ns).2.nodes.size
    rw [size_addNodes]
    exact Nat.lt_add_of_pos_right (List.length_pos_iff.2 some)
  · exact (Nat.ne_of_lt drafting.sound.layout.project_lt).symm

/-! ## Expressions -/

mutual

/-- The type of an expression stays on the ground. -/
theorem build_meets (fits : scope.Fits g) (e : Expr) {w : Workspace} (drafting : Drafting g w) :
    Meets (build scope.builder e) w (Reads g w fun g t => t.Within g) Whatever := by
  match e with
  | .name path args =>
    unfold build
    refine meets_bind (buildAll_meets fits args drafting) fun ts w₁ ⟨drafted, within⟩ => ?_
    split
    · exact meets_pure ⟨drafted, Ty.within_iff.2 ⟨trivial, List.forall_mem_nil _⟩⟩
    · exact meets_pure ⟨drafted, fits.bound path within⟩
  | .literal value =>
    unfold build
    exact meets_pure ⟨.refl drafting, Ty.within_iff.2 ⟨trivial, List.forall_mem_nil _⟩⟩
  | .longNumber =>
    unfold build
    exact meets_throw trivial
  | .query path =>
    unfold build
    refine meets_bind (P := fun t w' => t = .reference (.str path) (scope.link path) [] .null ∧ w' = w)
      (meets_pure ⟨rfl, rfl⟩) ?_
    rintro t w' ⟨rfl, rfl⟩
    refine meets_pure ⟨.refl drafting, Ty.within_iff.2 ⟨trivial, fun u mem => ?_⟩⟩
    rw [List.mem_singleton.1 mem]
    exact fits.bound path (List.forall_mem_nil _)
  | .operator word target =>
    unfold build
    refine meets_bind (build_meets fits target drafting) fun t w₁ ⟨drafted, within⟩ => ?_
    exact meets_pure ⟨drafted, Ty.within_iff.2 ⟨trivial, fun u mem => List.mem_singleton.1 mem ▸ within⟩⟩
  | .array element =>
    unfold build
    refine meets_bind (build_meets fits element drafting) fun t w₁ ⟨drafted, within⟩ => ?_
    exact meets_pure ⟨drafted, Ty.within_iff.2 ⟨trivial, fun u mem => List.mem_singleton.1 mem ▸ within⟩⟩
  | .union parts =>
    unfold build
    refine meets_bind (buildAll_meets fits parts drafting) fun ts w₁ ⟨drafted, within⟩ => ?_
    exact meets_pure ⟨drafted, Ty.within_iff.2 ⟨trivial, within⟩⟩
  | .intersection parts =>
    unfold build
    refine meets_bind (buildAll_meets fits parts drafting) fun ts w₁ ⟨drafted, within⟩ => ?_
    exact meets_pure ⟨drafted, Ty.within_iff.2 ⟨trivial, within⟩⟩
  | .tuple elements =>
    unfold build
    refine meets_bind (buildAll_meets fits elements drafting) fun ts w₁ ⟨drafted, within⟩ => ?_
    exact meets_pure ⟨drafted, Ty.within_iff.2 ⟨trivial, within⟩⟩
  | .object members =>
    unfold build
    refine meets_bind (buildMembers_meets fits members drafting) fun ms w₁ ⟨drafted, within⟩ => ?_
    refine (inline_meets drafted.drafting (inlineNodes_objectNodes within) (List.cons_ne_nil _ _)).mono ?_
      fun _ _ _ => trivial
    exact fun t w₂ ⟨drafted', within'⟩ => ⟨drafted.trans drafted', within'⟩
  | .function parameters result =>
    unfold build
    refine meets_bind (buildParameters_meets fits parameters drafting) fun ps w₁ ⟨drafted, within⟩ => ?_
    refine meets_bind (build_meets fits result drafted.drafting) fun r w₂ ⟨drafted', within'⟩ => ?_
    have nodes := inlineNodes_functionNodes w₂.store.nodes.size
      (fun p mem => (within p mem).mono drafted'.nodes_le) within'
    refine (inline_meets drafted'.drafting nodes (List.cons_ne_nil _ _)).mono ?_ fun _ _ _ => trivial
    exact fun t w₃ ⟨drafted'', within''⟩ => ⟨(drafted.trans drafted').trans drafted'', within''⟩

theorem buildAll_meets (fits : scope.Fits g) (es : List Expr) {w : Workspace} (drafting : Drafting g w) :
    Meets (buildAll scope.builder es) w (Reads g w fun g ts => ∀ t ∈ ts, t.Within g) Whatever := by
  match es with
  | [] =>
    unfold buildAll
    exact meets_pure ⟨.refl drafting, List.forall_mem_nil _⟩
  | e :: es =>
    unfold buildAll
    refine meets_bind (build_meets fits e drafting) fun t w₁ ⟨drafted, within⟩ => ?_
    refine meets_bind (buildAll_meets fits es drafted.drafting) fun ts w₂ ⟨drafted', within'⟩ => ?_
    refine meets_pure ⟨drafted.trans drafted', List.forall_mem_cons.2 ⟨?_, within'⟩⟩
    exact within.mono drafted'.nodes_le

theorem buildMembers_meets (fits : scope.Fits g) (es : List (String × Expr)) {w : Workspace}
    (drafting : Drafting g w) :
    Meets (buildMembers scope.builder es) w (Reads g w fun g ms => ∀ m ∈ ms, m.2.Within g) Whatever := by
  match es with
  | [] =>
    unfold buildMembers
    exact meets_pure ⟨.refl drafting, List.forall_mem_nil _⟩
  | (name, e) :: es =>
    unfold buildMembers
    refine meets_bind (build_meets fits e drafting) fun t w₁ ⟨drafted, within⟩ => ?_
    refine meets_bind (buildMembers_meets fits es drafted.drafting) fun ts w₂ ⟨drafted', within'⟩ => ?_
    refine meets_pure ⟨drafted.trans drafted', List.forall_mem_cons.2 ⟨?_, within'⟩⟩
    exact within.mono drafted'.nodes_le

theorem buildParameters_meets (fits : scope.Fits g) (es : List ((String × Marks) × Expr)) {w : Workspace}
    (drafting : Drafting g w) :
    Meets (buildParameters scope.builder es) w (Reads g w fun g ps => ∀ p ∈ ps, p.2.Within g) Whatever := by
  match es with
  | [] =>
    unfold buildParameters
    exact meets_pure ⟨.refl drafting, List.forall_mem_nil _⟩
  | (name, e) :: es =>
    unfold buildParameters
    refine meets_bind (build_meets fits e drafting) fun t w₁ ⟨drafted, within⟩ => ?_
    refine meets_bind (buildParameters_meets fits es drafted.drafting) fun ts w₂ ⟨drafted', within'⟩ => ?_
    refine meets_pure ⟨drafted.trans drafted', List.forall_mem_cons.2 ⟨?_, within'⟩⟩
    exact within.mono drafted'.nodes_le

end

/-! ## Types -/

theorem refuse_meets {α : Type} {path : String} {fault : ModelFault} {Q : α → Workspace → Prop} :
    Meets (refuse path fault : Load α) w Q Whatever := meets_throw trivial

theorem readType_meets (fits : scope.Fits g) (path : String) (v : Value) (drafting : Drafting g w) :
    Meets (readType scope path v) w (Reads g w fun g t => t.Within g) Whatever := by
  unfold readType
  split
  · split
    · exact build_meets fits _ drafting
    · exact meets_bind (P := fun _ _ => True) (meets_modify trivial) fun _ _ _ => meets_throw trivial
  · exact refuse_meets

theorem readType?_meets (fits : scope.Fits g) (path : String) (v : Option Value) (drafting : Drafting g w) :
    Meets (readType? scope path v) w (Reads g w fun g o => ∀ t ∈ o.toList, t.Within g) Whatever := by
  unfold readType?
  split
  · exact meets_pure ⟨.refl drafting, List.forall_mem_nil _⟩
  · exact meets_pure ⟨.refl drafting, List.forall_mem_nil _⟩
  · refine meets_bind (readType_meets fits path _ drafting) fun t w₁ ⟨drafted, within⟩ => ?_
    exact meets_pure ⟨drafted, fun u mem => List.mem_singleton.1 mem ▸ within⟩

theorem readTypes_meets (fits : scope.Fits g) (path : String) (vs : List Value) (drafting : Drafting g w) :
    Meets (readTypes scope path vs) w (Reads g w fun g ts => ∀ t ∈ ts, t.Within g) Whatever := by
  induction vs generalizing w with
  | nil => exact meets_pure ⟨.refl drafting, List.forall_mem_nil _⟩
  | cons v vs ih =>
    unfold readTypes
    refine meets_bind (readType_meets fits path v drafting) fun t w₁ ⟨drafted, within⟩ => ?_
    refine meets_bind (ih drafted.drafting) fun ts w₂ ⟨drafted', within'⟩ => ?_
    refine meets_pure ⟨drafted.trans drafted', List.forall_mem_cons.2 ⟨?_, within'⟩⟩
    exact within.mono drafted'.nodes_le

theorem parts_meets (v : Value) :
    Meets (parts v) w (fun vs w' => w' = w ∧ v.parts? = some vs) Whatever := by
  unfold parts
  split
  · rename_i vs eq
    exact meets_pure ⟨rfl, eq⟩
  · exact meets_throw trivial

end DocTree.Document
