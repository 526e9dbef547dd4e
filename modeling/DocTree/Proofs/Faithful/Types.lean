import DocTree.Proofs.Document.Copy
import DocTree.Proofs.Faithful.Contents
import DocTree.Proofs.Faithful.Forms

/-!
# Types as they are written

What is added while types are read stays where it is, so the form of a type can be told before everything is loaded.

* `Says v x w R` : started in `w`, `x` only adds, and if all of that is found in `v`, it comes to what satisfies `R`;
  `Says.bind`;
* `Scope.Sees` : names lead where an outlook says;
* `build_tells`, `readType_tells` : a type has the form that its expression writes.
-/

namespace DocTree

def Store.Defines (s : Store) (symbol : SymbolId) (ss : List Symbol) : Prop :=
  ∀ (i : Nat) (h : i < ss.length), s.symbol (symbol + i) = ss[i]

theorem Store.defines_append {s : Store} {symbol : SymbolId} {ss ss' : List Symbol} :
    s.Defines symbol (ss ++ ss') ↔ s.Defines symbol ss ∧ s.Defines (symbol + ss.length) ss' := by
  constructor
  · intro h
    refine ⟨fun i lt => ?_, fun i lt => ?_⟩
    · rw [h i (by rw [List.length_append]; omega), List.getElem_append_left lt]
    · have here := h (ss.length + i) (by rw [List.length_append]; omega)
      rwa [← Nat.add_assoc, List.getElem_append_right (Nat.le_add_right _ _),
        ← getElem_congr_idx (Nat.add_sub_cancel_left _ _).symm] at here
  · rintro ⟨first, second⟩ i lt
    by_cases inside : i < ss.length
    · rw [first i inside, List.getElem_append_left inside]
    · obtain ⟨j, rfl⟩ := Nat.exists_eq_add_of_le (Nat.le_of_not_lt inside)
      rw [List.length_append] at lt
      rw [← Nat.add_assoc, second j (by omega), List.getElem_append_right (Nat.le_add_right _ _)]
      exact getElem_congr_idx (Nat.add_sub_cancel_left _ _).symm

namespace Document

open TypeExpr
open Ty (present)

variable {α β : Type} {v w : Workspace} {place : NodeId → Nat} {scope : Scope} {o : Outlook}

/-! ## What is added stays -/

/-- What `x` adds is told by `R` wherever it stays. -/
def Says (v : Workspace) (x : Load α) (w : Workspace) (R : α → Prop) : Prop :=
  ∀ ⦃a w'⦄, x w = .ok a w' → ∃ ns ss, w' = w.extended ns ss ∧
    (v.store.Holds w.store.nodes.size ns → v.store.Defines w.store.symbols.size ss → R a)

theorem says_pure {R : α → Prop} {a : α} (h : R a) : Says v (pure a) w R := by
  intro a' w' eq
  cases eq
  exact ⟨[], [], w.extended_nil.symm, fun _ _ => h⟩

theorem says_throw {R : α → Prop} {e : Error} : Says v (throw e) w R := fun _ _ eq => nomatch eq

theorem Says.bind {x : Load α} {f : α → Load β} {R : α → Prop} {R' : β → Prop} (first : Says v x w R)
    (rest : ∀ a w₁, x w = .ok a w₁ → w.store.symbols.size ≤ w₁.store.symbols.size →
      Says v (f a) w₁ fun b => R a → R' b) :
    Says v (x >>= f) w R' := by
  intro b w'' eq
  obtain ⟨a, w', eq, eq'⟩ := bind_ok eq
  obtain ⟨ns, ss, rfl, told⟩ := first eq
  obtain ⟨ns', ss', rfl, told'⟩ := rest a _ eq (w.size_symbols_extended ns ss ▸ Nat.le_add_right _ _) eq'
  refine ⟨ns ++ ns', ss ++ ss', w.extended_extended .., fun nodes symbols => ?_⟩
  obtain ⟨early, late⟩ := Store.holds_append.1 nodes
  obtain ⟨early', late'⟩ := Store.defines_append.1 symbols
  rw [← w.size_nodes_extended ns ss] at late
  rw [← w.size_symbols_extended ns ss] at late'
  exact told' late late' (told early early')

theorem Says.mono {x : Load α} {R R' : α → Prop} (h : Says v x w R) (weaker : ∀ a, R a → R' a) : Says v x w R' := by
  intro a w' eq
  obtain ⟨ns, ss, same, told⟩ := h eq
  exact ⟨ns, ss, same, fun nodes symbols => weaker a (told nodes symbols)⟩

theorem says_add {ns : NodeId → List Node} {R : Ty → Prop} (h : ∀ id, v.store.Holds id (ns id) → R (.inline id)) :
    Says v (scope.builder.inline ns) w R := by
  intro t w' eq
  cases eq
  exact ⟨ns w.store.nodes.size, [], w.extended_addNodes ns, fun nodes _ => h _ nodes⟩

/-! ## Names -/

/-- Names in a scope lead where an outlook says. -/
structure Scope.Sees (v : Workspace) (place : NodeId → Nat) (scope : Scope) (o : Outlook) : Prop where
  project : scope.project = v.project
  hidden : o.hidden = scope.hidden
  place : ∀ name, ((scope.program.symbols.find? (.text name)).bind v.nodeOf?).map place = o.place name

theorem Scope.Sees.hide (h : scope.Sees v place o) (names : List String) :
    (scope.hide names).Sees v place (o.hide names) :=
  ⟨h.project, congrArg (names ++ ·) h.hidden, h.place⟩

theorem Scope.Sees.link (h : scope.Sees v place o) (name : String) :
    (v.store.resolve (scope.link name)).map place = o.target name := by
  unfold Scope.link Outlook.target
  rw [h.hidden]
  split
  · rfl
  · rw [← h.place]
    cases scope.program.symbols.find? (.text name) with
    | none => rfl
    | some symbol =>
      show Option.map place ((v.store.index scope.project).nodeOf? symbol) = _
      rw [h.project]
      rfl

/-! ## Expressions -/

/-- A type that has a form. -/
def Writes (v : Workspace) (place : NodeId → Nat) (t : Ty) (form : Value) : Prop :=
  t.isAbsent = false ∧ Eventually (v.store.bareType place · t) form

/-- Types that have forms. -/
def WritesAll (v : Workspace) (place : NodeId → Nat) (ts : List Ty) (forms : List Value) : Prop :=
  Eventually (fun depth => ts.map (v.store.bareType place depth)) forms

theorem WritesAll.isEmpty {ts : List Ty} {forms : List Value} (h : WritesAll v place ts forms) :
    ts.isEmpty = forms.isEmpty := by
  obtain ⟨enough, eq⟩ := h
  rw [← eq enough (Nat.le_refl _), List.isEmpty_map]

theorem isEmpty_exprForms (o : Outlook) (es : List Expr) : (exprForms o es).isEmpty = es.isEmpty := by
  cases es <;> rfl

theorem writes_of_map {f : Nat → α} {a : α} {t : Ty} (h : Eventually f a) (k : α → Value) (there : t.isAbsent = false)
    (same : ∀ depth, v.store.bareType place depth t = k (f depth)) : Writes v place t (k a) :=
  ⟨there, (h.map k).congr same⟩

theorem writes_reference (sees : scope.Sees v place o) (name : String) {args : List Ty} {forms : List Value}
    (inside : WritesAll v place args forms) :
    Writes v place (.reference (.str name) (scope.link name) args .null) (referenceForm o name forms) := by
  refine writes_of_map inside (referenceForm o name) rfl fun depth => ?_
  rw [Store.bareType, Ty.toValue, sees.link, Ty.toValues_eq]
  unfold referenceForm Store.listField
  rw [List.isEmpty_map]
  rfl

theorem present_of_writes {key : String} {t : Ty} (there : t.isAbsent = false) (form : Value) :
    present key t form = [(key, form)] := by
  rw [present, there]
  rfl

theorem writes_inline (strays : v.store.strays = .empty) {id : NodeId} {b : DeclarationBody}
    (here : v.store.node id = ⟨inlineName, .typeLiteral, none, .declaration b⟩) {fields : List (String × Value)}
    {children : List Value}
    (body : Eventually (fun depth => Store.bodyFields (v.store.bareType place depth) (v.store.bareForm place depth)
      (.declaration b)) fields)
    (inside : Eventually (fun depth => b.children.map (v.store.bareForm place depth)) children) :
    Writes v place (.inline id) (inlineForm fields children) :=
  writes_of_map (Store.eventually_node strays here body inside)
    (fun form => .object [("type", .str "reflection"), ("declaration", form)]) rfl fun _ => by
      rw [Store.bareType, Ty.toValue]

def propertyForm (type : Ty → Value) (m : String × Ty) : Value :=
  nodeForm (.str m.1) "declaration" .property [("type", type m.2)] []

def argumentForm (type : Ty → Value) (p : (String × Marks) × Ty) : Value :=
  nodeForm (.str p.1.1) "param" .parameter ([("type", type p.2)] ++ markField "isOptional" p.1.2.isOptional
    ++ markField "isRest" p.1.2.isRest) []

theorem markField_eq (key : String) (mark : Bool) :
    Ty.optionalField key (Ty.unlessEmpty (.bool mark)) = markField key mark := by
  cases mark <;> rfl

theorem writes_object (strays : v.store.strays = .empty) {id : NodeId} {members : List (String × Ty)}
    {forms : List Value} (holds : v.store.Holds id (objectNodes id members))
    (inside : Eventually (fun depth => members.map (propertyForm (v.store.bareType place depth))) forms) :
    Writes v place (.inline id) (inlineForm [] forms) := by
  obtain ⟨here, rest⟩ := Store.holds_cons.1 holds
  refine writes_inline strays here (eventually_const []) (Store.eventually_shapes (fun depth m id here => ?_) rest inside)
  rw [Store.bareForm_succ strays, Store.children, here]
  rfl

theorem writes_function (strays : v.store.strays = .empty) {id : NodeId} {parameters : List ((String × Marks) × Ty)}
    {result : Ty} {forms : List Value} {form : Value} (holds : v.store.Holds id (functionNodes id parameters result))
    (inside : Eventually (fun depth => parameters.map (argumentForm (v.store.bareType place depth))) forms)
    (last : Writes v place result form) :
    Writes v place (.inline id) (inlineForm (Store.listField "signatures" [nodeForm inlineName "signature" .callSignature
      (Store.listField "parameters" forms ++ [("type", form)]) []]) []) := by
  obtain ⟨here, rest⟩ := Store.holds_cons.1 holds
  obtain ⟨next, rest⟩ := Store.holds_cons.1 rest
  have arguments : Eventually (fun depth => (List.range' (id + 1 + 1) parameters.length).map (v.store.bareForm place depth))
      forms := by
    refine Store.eventually_shapes (fun depth p id here => ?_) rest inside
    rw [Store.bareForm_succ strays, Store.children, here, argumentForm, ← markField_eq, ← markField_eq]
    rfl
  have signature := Store.eventually_node strays next (arguments.map₂ last.2 fun forms form =>
    Store.listField "parameters" forms ++ [("type", form)]) (eventually_const [])
  refine writes_inline strays here ?_ (eventually_const [])
  exact signature.map fun form => Store.listField "signatures" [form]

mutual

/-- A type has the form that its expression writes. -/
theorem build_tells (strays : v.store.strays = .empty) (sees : scope.Sees v place o) (e : Expr) (w : Workspace) :
    Says v (build scope.builder e) w fun t => Writes v place t (exprForm o e) := by
  match e with
  | .name path args =>
    unfold build exprForm
    refine (buildAll_tells strays sees args w).bind fun ts w₁ _ _ => ?_
    have empty : WritesAll v place ts (exprForms o args) → ts.isEmpty = args.isEmpty := fun inside =>
      inside.isEmpty.trans (isEmpty_exprForms o args)
    split
    · rename_i builtin
      refine says_pure fun inside => ?_
      rw [if_pos (empty inside ▸ builtin)]
      exact ⟨rfl, eventually_const _⟩
    · rename_i other
      refine says_pure fun inside => ?_
      rw [if_neg (empty inside ▸ other)]
      exact writes_reference sees path inside
  | .literal value =>
    unfold build exprForm
    exact says_pure ⟨rfl, eventually_const _⟩
  | .longNumber =>
    unfold build
    exact says_throw
  | .query path =>
    unfold build exprForm
    refine Says.bind (R := (· = .reference (.str path) (scope.link path) [] .null)) (says_pure rfl) fun t w₁ _ _ => ?_
    refine says_pure fun made => ?_
    have inside : Writes v place (.reference (.str path) (scope.link path) [] .null) (referenceForm o path []) :=
      writes_reference sees path (eventually_const [])
    rw [made]
    refine writes_of_map inside.2 (fun form => .object [("type", .str "query"), ("queryType", form)]) rfl fun depth => ?_
    rw [Store.bareType, queried, Ty.toValue, present_of_writes inside.1]
    rfl
  | .operator word target =>
    unfold build exprForm
    refine (build_tells strays sees target w).bind fun t w₁ _ _ => says_pure fun inside => ?_
    refine writes_of_map inside.2 (fun form => .object [("type", .str "typeOperator"), ("operator", .str word),
      ("target", form)]) rfl fun depth => ?_
    rw [Store.bareType, Ty.toValue, present_of_writes inside.1]
    rfl
  | .array element =>
    unfold build exprForm
    refine (build_tells strays sees element w).bind fun t w₁ _ _ => says_pure fun inside => ?_
    refine writes_of_map inside.2 (fun form => .object [("type", .str "array"), ("elementType", form)]) rfl fun depth => ?_
    rw [Store.bareType, Ty.toValue, present_of_writes inside.1]
    rfl
  | .union parts =>
    unfold build exprForm
    refine (buildAll_tells strays sees parts w).bind fun ts w₁ _ _ => says_pure fun inside => ?_
    refine writes_of_map inside (fun forms => .object [("type", .str "union"), ("types", .list forms)]) rfl fun depth => ?_
    rw [Store.bareType, Ty.toValue, Ty.toValues_eq]
    rfl
  | .intersection parts =>
    unfold build exprForm
    refine (buildAll_tells strays sees parts w).bind fun ts w₁ _ _ => says_pure fun inside => ?_
    refine writes_of_map inside (fun forms => .object [("type", .str "intersection"), ("types", .list forms)]) rfl
      fun depth => ?_
    rw [Store.bareType, Ty.toValue, Ty.toValues_eq]
    rfl
  | .tuple elements =>
    unfold build exprForm
    refine (buildAll_tells strays sees elements w).bind fun ts w₁ _ _ => says_pure fun inside => ?_
    refine writes_of_map inside (fun forms => .object [("type", .str "tuple"), ("elements", .list forms)]) rfl
      fun depth => ?_
    rw [Store.bareType, Ty.toValue, Ty.toValues_eq]
    rfl
  | .object members =>
    unfold build exprForm
    refine (buildMembers_tells strays sees members w).bind fun ms w₁ _ _ => ?_
    exact says_add fun id holds inside => writes_object strays holds inside
  | .function parameters result =>
    unfold build exprForm
    refine (buildParameters_tells strays sees parameters w).bind fun ps w₁ _ _ => ?_
    refine (build_tells strays sees result w₁).bind fun r w₂ _ _ => ?_
    exact says_add fun id holds last inside => writes_function strays holds inside last

theorem buildAll_tells (strays : v.store.strays = .empty) (sees : scope.Sees v place o) (es : List Expr) (w : Workspace) :
    Says v (buildAll scope.builder es) w fun ts => WritesAll v place ts (exprForms o es) := by
  match es with
  | [] =>
    unfold buildAll
    exact says_pure (eventually_const [])
  | e :: es =>
    unfold buildAll exprForms
    refine (build_tells strays sees e w).bind fun t w₁ _ _ => (buildAll_tells strays sees es w₁).bind fun ts w₂ _ _ => ?_
    exact says_pure fun rest first => first.2.map₂ rest List.cons

theorem buildMembers_tells (strays : v.store.strays = .empty) (sees : scope.Sees v place o)
    (members : List (String × Expr)) (w : Workspace) : Says v (buildMembers scope.builder members) w fun ms =>
      Eventually (fun depth => ms.map (propertyForm (v.store.bareType place depth))) (propertyForms o members) := by
  match members with
  | [] =>
    unfold buildMembers
    exact says_pure (eventually_const [])
  | (name, e) :: members =>
    unfold buildMembers propertyForms
    refine (build_tells strays sees e w).bind fun t w₁ _ _ => ?_
    refine (buildMembers_tells strays sees members w₁).bind fun ms w₂ _ _ => says_pure fun rest first => ?_
    exact first.2.map₂ rest fun form forms =>
      nodeForm (.str name) "declaration" .property [("type", form)] [] :: forms

theorem buildParameters_tells (strays : v.store.strays = .empty) (sees : scope.Sees v place o)
    (parameters : List ((String × Marks) × Expr)) (w : Workspace) :
    Says v (buildParameters scope.builder parameters) w fun ps =>
      Eventually (fun depth => ps.map (argumentForm (v.store.bareType place depth))) (argumentForms o parameters) := by
  match parameters with
  | [] =>
    unfold buildParameters
    exact says_pure (eventually_const [])
  | ((name, marks), e) :: parameters =>
    unfold buildParameters argumentForms
    refine (build_tells strays sees e w).bind fun t w₁ _ _ => ?_
    refine (buildParameters_tells strays sees parameters w₁).bind fun ps w₂ _ _ => says_pure fun rest first => ?_
    exact first.2.map₂ rest fun form forms =>
      nodeForm (.str name) "param" .parameter ([("type", form)] ++ markField "isOptional" marks.isOptional
        ++ markField "isRest" marks.isRest) [] :: forms

end

end Document

end DocTree
