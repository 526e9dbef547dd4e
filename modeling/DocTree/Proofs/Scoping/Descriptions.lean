import DocTree.Proofs.Faithful.Describe
import DocTree.Proofs.Scoping.Binding
import DocTree.Proofs.Scoping.Places

/-!
# Names in descriptions

* `readType?_bound`, `readTypeParameters_bound`, `readSignatures_bound` : the types that are read are bound where they
  stand;
* `Told v scope spec X` : all that a description says is found in what a symbol is described by, members included, and
  every type is bound with the type parameters in sight that stand around it; `told_of_slots`;
* `describe_told` : describing a symbol tells what its description says.
-/

namespace DocTree

namespace Document

variable {v w : Workspace}

/-! ## Types in documents -/

theorem readType_bound (scope : Scope) (path : String) (value : Value) (w : Workspace) :
    Says v (readType scope path value) w fun t => ∀ text, value = .str text → Bound v scope text t := by
  unfold readType
  split
  · rename_i text
    split
    · rename_i e parsed
      refine (build_spells scope e w).mono fun t spells text' same => ?_
      cases same
      exact ⟨e, parsed, spells⟩
    · intro t w' eq
      cases eq
  · exact says_throw

theorem readType?_bound (scope : Scope) (path : String) (value : Option Value) (w : Workspace) :
    Says v (readType? scope path value) w fun o =>
      ∀ text, value = some (.str text) → ∃ t, o = some t ∧ Bound v scope text t := by
  unfold readType?
  split
  · exact says_pure nofun
  · exact says_pure nofun
  · refine (readType_bound scope path _ w).bind fun t w₁ _ _ => says_pure fun bound text same => ?_
    exact ⟨t, rfl, bound text (Option.some.inj same)⟩

theorem readTypes_bound (scope : Scope) (path : String) (values : List Value) (w : Workspace) :
    Says v (readTypes scope path values) w fun ts =>
      ∀ (i : Nat) (text : String), values[i]? = some (.str text) → ∃ t, ts[i]? = some t ∧ Bound v scope text t := by
  induction values generalizing w with
  | nil => exact says_pure nofun
  | cons value values ih =>
    unfold readTypes
    refine (readType_bound scope path value w).bind fun t w₁ _ _ => (ih w₁).bind fun ts w₂ _ _ => ?_
    refine says_pure fun rest first i text here => ?_
    cases i with
    | zero => exact ⟨t, rfl, first text (Option.some.inj here)⟩
    | succ i => exact rest i text here

/-! ## Type parameters -/

/-- The types of a type parameter are bound. -/
structure BoundsBound (v : Workspace) (scope : Scope) (bounds : Option Value × Option Value)
    (shape : TypeParameterShape) : Prop where
  constraint : ∀ text, bounds.1 = some (.str text) → ∃ t, shape.constraint = some t ∧ Bound v scope text t
  fallback : ∀ text, bounds.2 = some (.str text) → ∃ t, shape.fallback = some t ∧ Bound v scope text t

theorem readTypeParameter_bound (scope : Scope) (path name : String) (value : Value) (w : Workspace) :
    Says v (readTypeParameter scope path name value) w fun shape =>
      shape.name = .str name ∧ BoundsBound v scope (boundsOf value) shape := by
  unfold readTypeParameter
  split
  · refine (readType?_bound scope path _ w).bind fun c w₁ _ _ => ?_
    refine (readType?_bound scope path _ w₁).bind fun d w₂ _ _ => says_pure fun fallback constraint => ?_
    exact ⟨rfl, constraint, fallback⟩
  · rename_i other
    refine (readType?_bound scope path _ w).bind fun c w₁ _ _ => says_pure fun constraint => ⟨rfl, ?_⟩
    have bounds : boundsOf value = (some value, none) := by
      unfold boundsOf
      split
      · exact absurd rfl (other _)
      · rfl
    refine bounds ▸ ⟨constraint, fun text given => ?_⟩
    cases given

theorem readTypeParameterList_bound (scope : Scope) (path : String) (fields : List (String × Value)) (w : Workspace) :
    Says v (readTypeParameterList scope path fields) w fun shapes => shapes.map (·.name.text) = fields.map Prod.fst ∧
      List.Forall₂ (fun p shape => BoundsBound v scope (boundsOf p.2) shape) fields shapes := by
  induction fields generalizing w with
  | nil => exact says_pure ⟨rfl, .nil⟩
  | cons field fields ih =>
    unfold readTypeParameterList
    refine (readTypeParameter_bound scope _ field.1 field.2 w).bind fun shape w₁ _ _ => ?_
    refine (ih w₁).bind fun shapes w₂ _ _ => ?_
    refine says_pure fun rest first => ⟨?_, .cons first.2 rest.2⟩
    rw [List.map_cons, List.map_cons, rest.1, first.1, Value.text_str]

/-- Type parameters are bound with all of them in sight. -/
theorem readTypeParameters_bound (scope : Scope) (path : String) (fields : List (String × Value)) (w : Workspace) :
    Says v (readTypeParameters scope path (Value.lookup "typeParameters" fields)) w fun shapes =>
      shapes.map (·.name.text) = typeParameterNames fields ∧
        List.Forall₂ (fun p shape => BoundsBound v (scope.hide (typeParameterNames fields)) (boundsOf p.2) shape)
          (fieldsOf (Value.lookup "typeParameters" fields)) shapes := by
  unfold typeParameterNames
  generalize Value.lookup "typeParameters" fields = t
  unfold readTypeParameters
  split
  · exact says_pure ⟨rfl, .nil⟩
  · split
    · rename_i falsy
      rw [fieldsOf_of_falsy falsy]
      exact says_pure ⟨rfl, .nil⟩
    · split
      · exact readTypeParameterList_bound (scope.hide _) path _ w
      · exact says_throw

theorem exists_getElem?_of_forall₂ {α β : Type} {R : α → β → Prop} {xs : List α} {ys : List β}
    (h : List.Forall₂ R xs ys) {i : Nat} {x : α} (here : xs[i]? = some x) : ∃ y, ys[i]? = some y ∧ R x y := by
  induction h generalizing i with
  | nil => cases here
  | cons first _ ih =>
    cases i with
    | zero =>
      cases here
      exact ⟨_, rfl, first⟩
    | succ i => exact ih here

variable {scope : Scope} {fields : List (String × Value)} {shapes : List TypeParameterShape}

theorem bound_constraint (h : List.Forall₂ (fun p shape => BoundsBound v scope (boundsOf p.2) shape)
    (fieldsOf (Value.lookup "typeParameters" fields)) shapes) {i : Nat} {text : String}
    (here : (boundsAt? fields i).bind Prod.fst = some (.str text)) :
    ∃ t, shapes[i]?.bind (·.constraint) = some t ∧ Bound v scope text t := by
  obtain ⟨bounds, place, same⟩ := Option.bind_eq_some_iff.1 here
  obtain ⟨p, listed, rfl⟩ := Option.map_eq_some_iff.1 place
  obtain ⟨shape, there, bound⟩ := exists_getElem?_of_forall₂ h listed
  obtain ⟨t, type, bound⟩ := bound.constraint text same
  exact ⟨t, Option.bind_eq_some_iff.2 ⟨shape, there, type⟩, bound⟩

theorem bound_fallback (h : List.Forall₂ (fun p shape => BoundsBound v scope (boundsOf p.2) shape)
    (fieldsOf (Value.lookup "typeParameters" fields)) shapes) {i : Nat} {text : String}
    (here : (boundsAt? fields i).bind Prod.snd = some (.str text)) :
    ∃ t, shapes[i]?.bind (·.fallback) = some t ∧ Bound v scope text t := by
  obtain ⟨bounds, place, same⟩ := Option.bind_eq_some_iff.1 here
  obtain ⟨p, listed, rfl⟩ := Option.map_eq_some_iff.1 place
  obtain ⟨shape, there, bound⟩ := exists_getElem?_of_forall₂ h listed
  obtain ⟨t, type, bound⟩ := bound.fallback text same
  exact ⟨t, Option.bind_eq_some_iff.2 ⟨shape, there, type⟩, bound⟩

/-! ## Signatures -/

theorem readParameterList_bound (scope : Scope) (path : String) (fields : List (String × Value)) (w : Workspace) :
    Says v (readParameterList scope path fields) w fun shapes => List.Forall₂ (fun (p : String × Value) shape =>
      ∀ text, p.2 = .str text → ∃ t, shape.type = some t ∧ Bound v scope text t) fields shapes := by
  induction fields generalizing w with
  | nil => exact says_pure .nil
  | cons field fields ih =>
    unfold readParameterList
    refine (readType_bound scope _ field.2 w).bind fun t w₁ _ _ => (ih w₁).bind fun shapes w₂ _ _ => ?_
    exact says_pure fun rest first => .cons (fun text same => ⟨t, rfl, first text same⟩) rest

theorem readParameters_bound (scope : Scope) (path : String) (parameters : Option Value) (w : Workspace) :
    Says v (readParameters scope path parameters) w fun shapes => List.Forall₂ (fun (p : String × Value) shape =>
      ∀ text, p.2 = .str text → ∃ t, shape.type = some t ∧ Bound v scope text t) (fieldsOf parameters) shapes := by
  unfold readParameters
  split
  · exact says_pure .nil
  · split
    · rename_i falsy
      rw [fieldsOf_of_falsy falsy]
      exact says_pure .nil
    · split
      · exact readParameterList_bound scope path _ w
      · exact says_throw

def SignatureBound (v : Workspace) (scope : Scope) (spec : Value) (shape : SignatureShape) : Prop :=
  ∀ (slot : SignatureSlot) (text : String), slot.value? spec.fields = some (.str text) →
    ∃ t, slot.type? shape = some t ∧ Bound v (scope.hide (typeParameterNames spec.fields)) text t

theorem readSignature_bound (scope : Scope) (path : String) (spec : Value) (w : Workspace) :
    Says v (readSignature scope path spec) w (SignatureBound v scope spec) := by
  unfold readSignature
  split
  · rename_i fields
    refine (readTypeParameters_bound scope path fields w).bind fun tps w₁ _ _ => ?_
    refine (readParameters_bound _ path _ w₁).bind fun ps w₂ _ _ => ?_
    refine (readType?_bound _ _ _ w₂).bind fun r w₃ _ _ => says_pure fun result parameters types slot text here => ?_
    rw [Scope.within, types.1] at result parameters
    cases slot with
    | parameter j =>
      obtain ⟨p, listed, same⟩ := Option.map_eq_some_iff.1 here
      obtain ⟨shape, there, bound⟩ := exists_getElem?_of_forall₂ parameters listed
      obtain ⟨t, type, bound⟩ := bound text same
      exact ⟨t, Option.bind_eq_some_iff.2 ⟨shape, there, type⟩, bound⟩
    | result => exact result text here
    | constraint j => exact bound_constraint types.2 here
    | fallback j => exact bound_fallback types.2 here
  · exact says_throw

theorem readSignatures_bound (scope : Scope) (path : String) (i : Nat) (specs : List Value) (w : Workspace) :
    Says v (readSignatures scope path i specs) w fun shapes =>
      List.Forall₂ (SignatureBound v scope) specs shapes := by
  induction specs generalizing i w with
  | nil => exact says_pure .nil
  | cons spec specs ih =>
    unfold readSignatures
    refine (readSignature_bound scope _ spec w).bind fun shape w₁ _ _ => (ih (i + 1) w₁).bind fun shapes w₂ _ _ => ?_
    exact says_pure fun rest first => .cons first rest

/-! ## Symbols -/

/-- All that a description says is found in what a symbol is described by, and in what its members are described by.
Every type is bound with those type parameters in sight that stand around it. -/
def Told (v : Workspace) (scope : Scope) (spec : Value) (symbol : SymbolId) : Prop :=
  ∀ (path : List Nat) (inner : Value), specAt? spec path = some inner → ∃ X d, v.store.symbolAt? symbol path = some X ∧
    (v.store.symbol X).description = some d ∧
    ∀ (slot : Slot) (text : String), slot.value? (specFields inner) = some (.str text) → ∃ t, slot.type? d = some t ∧
      Bound v (scope.hide (slot.hidden (specFields inner) ++ outerNames spec path)) text t

/-- What is told of a symbol: the types of its own, and its members. -/
theorem told_of_slots {scope : Scope} {spec : Value} {symbol : SymbolId} {d : Description}
    (described : (v.store.symbol symbol).description = some d)
    (slots : ∀ (slot : Slot) (text : String), slot.value? (specFields spec) = some (.str text) →
      ∃ t, slot.type? d = some t ∧ Bound v (scope.hide (slot.hidden (specFields spec))) text t)
    (members : ∀ (i : Nat) (m : String × Value), (membersOf spec)[i]? = some m →
      ∃ X, d.members[i]? = some X ∧ Told v (scope.hide (typeParameterNames (specFields spec))) m.2 X) :
    Told v scope spec symbol := by
  intro path inner here
  cases path with
  | nil =>
    cases here
    refine ⟨symbol, d, rfl, described, fun slot text value => ?_⟩
    rw [outerNames, List.append_nil]
    exact slots slot text value
  | cons i path =>
    obtain ⟨m, listed, here⟩ := Option.bind_eq_some_iff.1 here
    obtain ⟨X, there, told⟩ := members i m listed
    obtain ⟨Y, d', found, described', slots⟩ := told path inner here
    refine ⟨Y, d', ?_, described', fun slot text value => ?_⟩
    · rw [Store.symbolAt?, Store.membersOf_eq described, there]
      exact found
    · obtain ⟨t, type, bound⟩ := slots slot text value
      refine ⟨t, type, ?_⟩
      rw [Scope.hide_hide, List.append_assoc] at bound
      rw [outerNames, listed]
      exact bound

theorem told_of_text {scope : Scope} {text : String} {symbol : SymbolId} {t : Ty}
    (described : (v.store.symbol symbol).description = some { type := some t }) (bound : Bound v scope text t) :
    Told v scope (.str text) symbol := by
  refine told_of_slots described (fun slot text' value => ?_) fun i m listed => ?_
  · cases slot with
    | type =>
      cases value
      exact ⟨t, rfl, bound⟩
    | _ => cases value
  · have none : membersOf (.str text) = [] := by
      unfold membersOf
      split <;> rfl
    rw [none] at listed
    cases listed

theorem addSymbol_defines (s : Symbol) (w : Workspace) : Says v (addSymbol s) w fun X => v.store.symbol X = s := by
  intro X w' eq
  cases eq
  exact ⟨[], [s], w.extended_addSymbol s, fun _ symbols => symbols 0 Nat.zero_lt_one⟩

theorem nameMembers_adds (scope : Scope) (names : List Value) (w : Workspace) :
    Says v (nameMembers scope names) w fun _ => True := by
  induction names generalizing w with
  | nil => exact says_pure trivial
  | cons name names ih =>
    unfold nameMembers
    refine (addSymbol_defines _ w).bind fun X w₁ _ _ => (ih w₁).bind fun ids w₂ _ _ => ?_
    exact says_pure fun _ _ => trivial

mutual

/-- Describing a symbol tells what its description says. -/
theorem describe_told (scope : Scope) (path : String) (kind : Kind) (spec : Value) (w : Workspace) :
    Says v (describe scope path kind spec) w fun d => statedKind? spec = some kind →
      ∀ X, (v.store.symbol X).description = some d → Told v scope spec X := by
  match spec with
  | .object fields =>
    unfold describe
    refine (readTypeParameters_bound scope path fields w).bind fun tps w₁ _ _ => ?_
    refine (readType?_bound _ _ _ w₁).bind fun t w₂ _ _ => (listed_tells _ w₂).bind fun vs w₃ _ _ => ?_
    refine (readTypes_bound _ _ vs w₃).bind fun ext w₄ _ _ => (listed_tells _ w₄).bind fun vs' w₅ _ _ => ?_
    refine (readTypes_bound _ _ vs' w₅).bind fun imp w₆ _ _ => (listed_tells _ w₆).bind fun vs'' w₇ _ _ => ?_
    refine (readSignatures_bound _ path 0 vs'' w₇).bind fun sigs w₈ _ _ => ?_
    refine (membersAmong_told _ _ kind fields w₈).bind fun ms w₉ _ _ => says_pure ?_
    rintro members signatures rfl implemented rfl extended rfl type types stated X described
    rw [Scope.within, types.1] at members signatures implemented extended type
    refine told_of_slots described (fun slot text value => ?_) fun i m listed => ?_
    · cases slot with
      | type => exact type text value
      | extended i => exact extended i text value
      | implemented i => exact implemented i text value
      | constraint i => exact bound_constraint types.2 value
      | fallback i => exact bound_fallback types.2 value
      | signature i slot =>
        obtain ⟨spec, listed, value⟩ := Option.bind_eq_some_iff.1 value
        obtain ⟨shape, there, bound⟩ := exists_getElem?_of_forall₂ signatures listed
        obtain ⟨t, type, bound⟩ := bound slot text value
        refine ⟨t, Option.bind_eq_some_iff.2 ⟨shape, there, type⟩, ?_⟩
        rw [Scope.hide_hide] at bound
        have names : ((signatureAt? fields i).map fun v => typeParameterNames v.fields).getD [] =
            typeParameterNames spec.fields := congrArg (fun o => (Option.map _ o).getD []) listed
        rw [← names] at bound
        exact bound
    · unfold membersOf isEnumeration kindOf at listed
      rw [stated, Option.getD_some] at listed
      split at listed
      · cases listed
      · rename_i plain
        exact exists_getElem?_of_forall₂ (members (Bool.eq_false_iff.2 plain)) listed
  | .null | .bool _ | .int _ | .float _ | .str _ | .list _ =>
    unfold describe
    exact says_throw

theorem membersAmong_told (scope : Scope) (path : String) (kind : Kind) (fields : List (String × Value))
    (w : Workspace) :
    Says v (membersAmong scope path kind fields) w fun ids => kind.meets .enumeration = false →
      List.Forall₂ (fun m X => Told v scope m.2 X) (fieldsOf (Value.lookup "members" fields)) ids := by
  match fields with
  | [] =>
    unfold membersAmong
    exact says_pure fun _ => .nil
  | (key, spec) :: rest =>
    unfold membersAmong Value.lookup
    split
    · exact members_told scope path kind spec w
    · exact membersAmong_told scope path kind rest w

theorem members_told (scope : Scope) (path : String) (kind : Kind) (spec : Value) (w : Workspace) :
    Says v (members scope path kind spec) w fun ids => kind.meets .enumeration = false →
      List.Forall₂ (fun m X => Told v scope m.2 X) spec.fields ids := by
  match spec with
  | .null =>
    unfold members
    exact says_pure fun _ => .nil
  | .object fields =>
    unfold members
    split
    · rename_i enumeration
      exact (nameMembers_adds scope _ w).mono fun _ _ plain => absurd (enumeration.symm.trans plain) nofun
    · exact (memberList_told scope path fields w).mono fun ids told _ => told
  | .bool _ | .int _ | .float _ | .str _ | .list _ =>
    unfold members
    split
    · rename_i enumeration
      refine (parts_tells _ w).bind fun names w₁ _ _ => ?_
      exact (nameMembers_adds scope _ w₁).mono fun _ _ _ plain => absurd (enumeration.symm.trans plain) nofun
    · exact says_throw

theorem memberList_told (scope : Scope) (path : String) (fields : List (String × Value)) (w : Workspace) :
    Says v (memberList scope path fields) w fun ids => List.Forall₂ (fun m X => Told v scope m.2 X) fields ids := by
  match fields with
  | [] =>
    unfold memberList
    exact says_pure .nil
  | (raw, spec) :: rest =>
    have others : ∀ w₁, Says v (memberList scope path rest) w₁ fun ids =>
        List.Forall₂ (fun m X => Told v scope m.2 X) rest ids := memberList_told scope path rest
    unfold memberList
    split
    · rename_i text
      refine (readType_bound scope _ _ w).bind fun t w₁ _ _ => (addSymbol_defines _ w₁).bind fun X w₂ _ _ => ?_
      refine (others w₂).bind fun ids w₃ _ _ => says_pure fun told symbol bound => .cons ?_ told
      exact told_of_text (congrArg Symbol.description symbol) (bound text rfl)
    · refine (readKind_tells _ spec w).bind fun kind w₁ _ _ => ?_
      refine (describe_told scope _ kind spec w₁).bind fun d w₂ _ _ => ?_
      refine (addSymbol_defines _ w₂).bind fun X w₃ _ _ => (others w₃).bind fun ids w₄ _ _ => ?_
      refine says_pure fun told symbol described stated => .cons ?_ told
      exact described stated X (congrArg Symbol.description symbol)

end

end Document

end DocTree
