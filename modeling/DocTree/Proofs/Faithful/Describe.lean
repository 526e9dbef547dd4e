import DocTree.Proofs.Document.Declare
import DocTree.Proofs.Faithful.Types

/-!
# Descriptions as they are written

* `readTypeParameters_tells`, `readSignatures_tells` : type parameters and signatures have the forms that are written;
* `Shown v place symbol form` : the node of a symbol, if it has one, has a form; `shown_of_described`;
* `describe_tells` : so has everything a symbol is described by, members included.
-/

namespace DocTree

theorem eraseDups_of_nodup {α : Type} [BEq α] [LawfulBEq α] {xs : List α} (h : xs.Nodup) : xs.eraseDups = xs := by
  induction xs with
  | nil => rfl
  | cons x xs ih =>
    obtain ⟨fresh, rest⟩ := List.nodup_cons.1 h
    rw [List.eraseDups_cons, List.filter_eq_self.2 fun y mem => ?_, ih rest]
    rw [Bool.not_eq_true', beq_eq_false_iff_ne]
    rintro rfl
    exact fresh mem

namespace Document

open Workspace

variable {v w : Workspace} {place : NodeId → Nat} {scope : Scope} {o : Outlook}

/-! ## Types in documents -/

theorem readType_tells (strays : v.store.strays = .empty) (sees : scope.Sees v place o) (path : String) (t : Value)
    (w : Workspace) : Says v (readType scope path t) w fun ty => Writes v place ty (typeForm o t) := by
  unfold readType
  split
  · rename_i text
    split
    · rename_i e parsed
      have form : typeForm o (.str text) = exprForm o e := by
        unfold typeForm
        dsimp only
        rw [parsed]
      exact form ▸ build_tells strays sees e w
    · intro a w' eq
      cases eq
  · exact says_throw

theorem readType?_tells (strays : v.store.strays = .empty) (sees : scope.Sees v place o) (path : String)
    (t : Option Value) (w : Workspace) : Says v (readType? scope path t) w fun ty =>
      Eventually (fun depth => ty.map (v.store.bareType place depth)) (typeForm? o t) := by
  unfold readType?
  split
  · exact says_pure (eventually_const none)
  · exact says_pure (eventually_const none)
  · rename_i t some
    have form : typeForm? o (.some t) = .some (typeForm o t) := by
      unfold typeForm?
      split
      · rename_i eq
        cases eq
      · rename_i eq
        cases eq
        exact absurd rfl some
      · rename_i eq
        cases eq
        rfl
    refine (readType_tells strays sees path t w).bind fun ty w₁ _ _ => says_pure fun inside => ?_
    exact form ▸ inside.2.map Option.some

theorem readTypes_tells (strays : v.store.strays = .empty) (sees : scope.Sees v place o) (path : String)
    (ts : List Value) (w : Workspace) :
    Says v (readTypes scope path ts) w fun tys => WritesAll v place tys (ts.map (typeForm o)) := by
  induction ts generalizing w with
  | nil => exact says_pure (eventually_const [])
  | cons t ts ih =>
    unfold readTypes
    refine (readType_tells strays sees path t w).bind fun ty w₁ _ _ => (ih w₁).bind fun tys w₂ _ _ => ?_
    exact says_pure fun rest first => first.2.map₂ rest List.cons

theorem parts_tells (t : Value) (w : Workspace) : Says v (parts t) w (· = t.parts?.getD []) := by
  unfold parts
  split
  · rename_i eq
    exact says_pure (by rw [eq]; rfl)
  · exact says_throw

theorem listed_tells (t : Option Value) (w : Workspace) : Says v (listed t) w (· = partsOf t) := parts_tells _ w

/-! ## Type parameters -/

theorem fieldsOf_of_falsy {t : Value} (falsy : (!t.isTruthy) = true) : fieldsOf (some t) = [] := by
  cases t with
  | object fields =>
    simp only [Value.isTruthy, Bool.not_not, List.isEmpty_iff] at falsy
    exact falsy
  | _ => rfl

theorem readTypeParameter_tells (strays : v.store.strays = .empty) (sees : scope.Sees v place o) (path name : String)
    (t : Value) (w : Workspace) : Says v (readTypeParameter scope path name t) w fun shape => shape.name = .str name ∧
      Eventually (fun depth => shape.form (v.store.bareType place depth)) (typeParameterForm o (name, t)) := by
  have shape : ∀ {c d : Option Ty} {bounds : Option Value × Option Value}, boundsOf t = bounds →
      Eventually (fun depth => c.map (v.store.bareType place depth)) (typeForm? o bounds.1) →
      Eventually (fun depth => d.map (v.store.bareType place depth)) (typeForm? o bounds.2) →
      Eventually (fun depth => TypeParameterShape.form (v.store.bareType place depth) ⟨.str name, c, d⟩)
        (typeParameterForm o (name, t)) := by
    rintro c d _ rfl constraint fallback
    exact constraint.map₂ fallback fun c d => nodeForm (.str name) "typeParam" .typeParameter
      (Ty.optionalField "type" c ++ Ty.optionalField "default" d) []
  unfold readTypeParameter
  split
  · refine (readType?_tells strays sees path _ w).bind fun c w₁ _ _ => ?_
    refine (readType?_tells strays sees path _ w₁).bind fun d w₂ _ _ => says_pure fun fallback constraint => ⟨rfl, ?_⟩
    exact shape rfl constraint fallback
  · rename_i other
    refine (readType?_tells strays sees path _ w).bind fun c w₁ _ _ => says_pure fun constraint => ⟨rfl, ?_⟩
    have bounds : boundsOf t = (some t, none) := by
      unfold boundsOf
      split
      · exact absurd rfl (other _)
      · rfl
    exact shape bounds constraint (eventually_const none)

theorem readTypeParameterList_tells (strays : v.store.strays = .empty) (sees : scope.Sees v place o) (path : String)
    (fields : List (String × Value)) (w : Workspace) :
    Says v (readTypeParameterList scope path fields) w fun shapes =>
      shapes.map (·.name.text) = fields.map Prod.fst ∧
        Eventually (fun depth => shapes.map (·.form (v.store.bareType place depth)))
          (fields.map (typeParameterForm o)) := by
  induction fields generalizing w with
  | nil => exact says_pure ⟨rfl, eventually_const []⟩
  | cons field fields ih =>
    unfold readTypeParameterList
    refine (readTypeParameter_tells strays sees _ field.1 field.2 w).bind fun shape w₁ _ _ => ?_
    refine (ih w₁).bind fun shapes w₂ _ _ => says_pure fun rest first => ⟨?_, first.2.map₂ rest.2 List.cons⟩
    rw [List.map_cons, List.map_cons, rest.1, first.1, Value.text_str]

theorem readTypeParameters_tells (strays : v.store.strays = .empty) (sees : scope.Sees v place o) (path : String)
    (t : Option Value) (w : Workspace) : Says v (readTypeParameters scope path t) w fun shapes =>
      shapes.map (·.name.text) = (fieldsOf t).map Prod.fst ∧
        Eventually (fun depth => shapes.map (·.form (v.store.bareType place depth)))
          ((fieldsOf t).map (typeParameterForm (o.hide ((fieldsOf t).map Prod.fst)))) := by
  unfold readTypeParameters
  split
  · exact says_pure ⟨rfl, eventually_const []⟩
  · split
    · rename_i falsy
      rw [fieldsOf_of_falsy falsy]
      exact says_pure ⟨rfl, eventually_const []⟩
    · split
      · exact readTypeParameterList_tells strays (sees.hide _) path _ w
      · exact says_throw

/-! ## Signatures -/

theorem readParameterList_tells (strays : v.store.strays = .empty) (sees : scope.Sees v place o) (path : String)
    (fields : List (String × Value)) (w : Workspace) : Says v (readParameterList scope path fields) w fun shapes =>
      Eventually (fun depth => shapes.map (·.form (v.store.bareType place depth))) (fields.map (parameterForm o)) := by
  induction fields generalizing w with
  | nil => exact says_pure (eventually_const [])
  | cons field fields ih =>
    unfold readParameterList
    refine (readType_tells strays sees _ field.2 w).bind fun t w₁ _ _ => (ih w₁).bind fun shapes w₂ _ _ => ?_
    refine says_pure fun rest first => ?_
    refine (first.2.map₂ rest fun form forms => nodeForm (.str (MarkedName.ofString field.1).name) "param" .parameter
      ([("type", form)] ++ markField "isOptional" (MarkedName.ofString field.1).isOptional
        ++ markField "isRest" (MarkedName.ofString field.1).isRest) [] :: forms).congr fun depth => ?_
    rw [List.map_cons, ParameterShape.form, markField_eq, markField_eq]
    rfl

theorem readParameters_tells (strays : v.store.strays = .empty) (sees : scope.Sees v place o) (path : String)
    (t : Option Value) (w : Workspace) : Says v (readParameters scope path t) w fun shapes =>
      Eventually (fun depth => shapes.map (·.form (v.store.bareType place depth)))
        ((fieldsOf t).map (parameterForm o)) := by
  unfold readParameters
  split
  · exact says_pure (eventually_const [])
  · split
    · rename_i falsy
      rw [fieldsOf_of_falsy falsy]
      exact says_pure (eventually_const [])
    · split
      · exact readParameterList_tells strays sees path _ w
      · exact says_throw

/-- A signature of whatever owner. -/
theorem readSignature_tells (strays : v.store.strays = .empty) (sees : scope.Sees v place o) (path : String)
    (t : Value) (w : Workspace) : Says v (readSignature scope path t) w fun shape => ∀ owner : Node,
      shape.Tells (v.store.bareType place) (signatureHead owner) (signatureForm o owner.name owner.kind t) := by
  unfold readSignature
  split
  · rename_i fields
    refine (readTypeParameters_tells strays sees path _ w).bind fun tps w₁ _ _ => ?_
    have inner := sees.hide (tps.map (·.name.text))
    refine (readParameters_tells strays inner path _ w₁).bind fun ps w₂ _ _ => ?_
    refine (readType?_tells strays inner _ _ w₂).bind fun r w₃ _ _ => says_pure fun result parameters types owner => ?_
    rw [types.1] at result parameters
    have head : signatureForm o owner.name owner.kind (.object fields) = nodeForm (signatureHead owner).2 "signature"
        (signatureHead owner).1 (Store.listField "typeParameters" (typeParameterForms o fields)
          ++ Store.listField "parameters" ((fieldsOf (Value.lookup "parameters" fields)).map
            (parameterForm (o.hide (typeParameterNames fields))))
          ++ Ty.optionalField "type"
            (typeForm? (o.hide (typeParameterNames fields)) (Value.lookup "returns" fields))) [] := by
      unfold signatureForm signatureHead Node.isKind
      split <;> rfl
    rw [head]
    exact .intro types.2 parameters result
  · exact says_throw

theorem readSignatures_tells (strays : v.store.strays = .empty) (sees : scope.Sees v place o) (path : String) (i : Nat)
    (ts : List Value) (w : Workspace) : Says v (readSignatures scope path i ts) w fun shapes => ∀ owner : Node,
      List.Forall₂ (SignatureShape.Tells (v.store.bareType place) (signatureHead owner)) shapes
        (ts.map (signatureForm o owner.name owner.kind)) := by
  induction ts generalizing i w with
  | nil => exact says_pure fun _ => .nil
  | cons t ts ih =>
    unfold readSignatures
    refine (readSignature_tells strays sees _ t w).bind fun shape w₁ _ _ => (ih (i + 1) w₁).bind fun shapes w₂ _ _ => ?_
    exact says_pure fun rest first owner => .cons (first owner) (rest owner)

/-! ## Symbols -/

/-- The node of a symbol, if it has one, has a form. -/
def Shown (v : Workspace) (place : NodeId → Nat) (symbol : SymbolId) (form : Value) : Prop :=
  ∀ ⦃id⦄, v.nodeOf? symbol = some id → Eventually (v.store.bareForm place · id) form

/-- What is known of a workspace when all is loaded: what was converted is shown. -/
structure Complete (v : Workspace) : Prop where
  strays : v.store.strays = .empty
  shows : ∀ {symbol id}, v.nodeOf? symbol = some id → v.Shows symbol id

theorem eventually_shown {symbols : List SymbolId} {ids : List NodeId} {forms : List Value}
    (shown : List.Forall₂ (Shown v place) symbols forms)
    (nodes : List.Forall₂ (fun symbol id => v.nodeOf? symbol = some id) symbols ids) :
    Eventually (fun depth => ids.map (v.store.bareForm place depth)) forms := by
  induction shown generalizing ids with
  | nil =>
    cases nodes
    exact eventually_const []
  | cons first _ ih =>
    cases nodes with
    | cons node nodes => exact (first node).map₂ (ih nodes) List.cons

/-- A symbol is shown as it is described. -/
theorem shown_of_described (complete : Complete v) {symbol : SymbolId} {name : Value} {kind : Kind}
    {program : Option Value} {d : Description} (here : v.store.symbol symbol = ⟨name, kind, program, some d⟩)
    {fields : List (String × Value)} {forms : List Value}
    (tells : ∀ owner : Node, owner.name = name → owner.kind = kind →
      d.Tells (v.store.bareType place) (signatureHead owner) fields)
    (distinct : d.members.Nodup) (members : List.Forall₂ (Shown v place) d.members forms) :
    Shown v place symbol (nodeForm name "declaration" kind fields forms) := by
  intro id bound
  have strays := complete.strays
  cases complete.shows bound with
  | @intro d' scope children described holds _ nodes =>
    rw [here] at described holds
    cases described
    rw [eraseDups_of_nodup distinct] at nodes
    obtain ⟨node, parts⟩ := Store.holds_cons.1 holds
    exact Store.eventually_node strays node (eventually_described strays parts (tells _ rfl rfl))
      (eventually_shown members nodes)

theorem Description.tells_type {type : Nat → Ty → Value} {head : Kind × Value} (t : Option Ty) {form : Option Value}
    (h : Eventually (fun depth => t.map (type depth)) form) :
    ({ type := t } : Description).Tells type head (Ty.optionalField "type" form) := by
  have tells : ({ type := t } : Description).Tells type head _ :=
    .intro h (eventually_const []) .nil (eventually_const []) (eventually_const [])
  cases form <;> exact tells

def Rising (low : SymbolId) (ids : List SymbolId) : Prop := ids.Pairwise (· < ·) ∧ ∀ id ∈ ids, low ≤ id

theorem Rising.cons {low low' : SymbolId} {ids : List SymbolId} (h : Rising low' ids) (lt : low < low') :
    Rising low (low :: ids) :=
  ⟨List.pairwise_cons.2 ⟨fun id mem => Nat.lt_of_lt_of_le lt (h.2 id mem), h.1⟩,
    List.forall_mem_cons.2 ⟨Nat.le_refl _, fun id mem => Nat.le_of_lt (Nat.lt_of_lt_of_le lt (h.2 id mem))⟩⟩

theorem Rising.earlier {low low' : SymbolId} {ids : List SymbolId} (h : Rising low' ids) (le : low ≤ low') :
    Rising low ids := ⟨h.1, fun id mem => Nat.le_trans le (h.2 id mem)⟩

theorem Rising.nodup {low : SymbolId} {ids : List SymbolId} (h : Rising low ids) : ids.Nodup :=
  h.1.imp Nat.ne_of_lt

structure MembersShown (v : Workspace) (place : NodeId → Nat) (low : SymbolId) (ids : List SymbolId) (forms : List Value) :
    Prop where
  rising : Rising low ids
  shown : List.Forall₂ (Shown v place) ids forms

theorem MembersShown.earlier {low low' : SymbolId} {ids : List SymbolId} {forms : List Value}
    (h : MembersShown v place low' ids forms) (le : low ≤ low') : MembersShown v place low ids forms :=
  ⟨h.rising.earlier le, h.shown⟩

theorem membersShown_nil (low : SymbolId) : MembersShown v place low [] [] := ⟨⟨.nil, List.forall_mem_nil _⟩, .nil⟩

/-- One more symbol is added, and more members behind it. -/
theorem Says.member {s : Symbol} {form : Value} {forms : List Value} {x : Load (List SymbolId)} {low : SymbolId}
    {R : Prop} (le : low ≤ w.store.symbols.size)
    (here : ∀ id, v.store.symbol id = s → R → Shown v place id form)
    (rest : ∀ w₁, Says v x w₁ fun ids => MembersShown v place w₁.store.symbols.size ids forms) :
    Says v (addSymbol s >>= fun id => x >>= fun ids => pure (id :: ids)) w
      fun ids => R → MembersShown v place low ids (form :: forms) := by
  have added : Says v (addSymbol s) w fun id => v.store.symbol id = s := by
    intro id w' eq
    cases eq
    exact ⟨[], [s], w.extended_addSymbol s, fun _ symbols => symbols 0 Nat.zero_lt_one⟩
  refine added.bind fun id w₁ eq _ => ?_
  cases eq
  refine (rest _).bind fun ids w₂ _ _ => says_pure fun others symbol told => ?_
  have lt : w.store.symbols.size < (w.store.addSymbol s).2.symbols.size := by
    show _ < (w.store.symbols.push s).size
    rw [Array.size_push]
    exact Nat.lt_succ_self _
  exact ⟨(others.rising.cons lt).earlier le, .cons (here _ symbol told) others.shown⟩

theorem nameMembers_tells (complete : Complete v) (names : List Value) (w : Workspace) :
    Says v (nameMembers scope names) w fun ids =>
      MembersShown v place w.store.symbols.size ids (names.map enumMemberForm) := by
  induction names generalizing w with
  | nil => exact says_pure (membersShown_nil _)
  | cons name names ih =>
    unfold nameMembers
    refine (Says.member (R := True) (Nat.le_refl _) (fun id here _ => ?_) fun w₁ => ih w₁).mono fun ids told => told trivial
    exact shown_of_described complete here (fun _ _ _ => Description.tells_type none (eventually_const none)) .nil .nil

/-- What a description comes to: it tells the fields that are written, and its members are shown. -/
structure Tells (v : Workspace) (place : NodeId → Nat) (o : Outlook) (low : SymbolId) (kind : Kind)
    (fields : List (String × Value)) (d : Description) : Prop where
  told : ∀ owner : Node, owner.kind = kind →
    d.Tells (v.store.bareType place) (signatureHead owner) (symbolFields o owner.name kind fields)
  members : MembersShown v place low d.members
    (memberFormsAmong (o.hide (typeParameterNames fields)) kind fields)

/-- A symbol that is described as written is shown as written. -/
theorem Tells.shown {low symbol : SymbolId} {name spec : Value} {kind : Kind} {program : Option Value} {d : Description}
    (tells : Tells v place o low kind spec.fields d) (complete : Complete v) (stated : statedKind? spec = some kind)
    (here : v.store.symbol symbol = ⟨name, kind, program, some d⟩) : Shown v place symbol (symbolForm o name spec) := by
  have form : symbolForm o name spec = nodeForm name "declaration" kind (symbolFields o name kind spec.fields)
      (memberFormsAmong (o.hide (typeParameterNames spec.fields)) kind spec.fields) := by
    cases spec with
    | object fields =>
      unfold symbolForm kindOf
      rw [stated]
      rfl
    | _ => cases stated
  rw [form]
  refine shown_of_described complete here (fun owner named same => ?_) tells.members.rising.nodup tells.members.shown
  exact named ▸ tells.told owner same

theorem readKind_tells (path : String) (spec : Value) (w : Workspace) :
    Says v (readKind path spec) w (statedKind? spec = some ·) := by
  intro kind w' eq
  obtain ⟨stated, rfl⟩ := stated_of_readKind eq
  exact ⟨[], [], w'.extended_nil.symm, fun _ _ => stated⟩

theorem memberFormList_cons {o : Outlook} {raw : String} {spec : Value} {rest : List (String × Value)}
    (notText : ∀ text, spec ≠ .str text) : memberFormList o ((raw, spec) :: rest) =
      symbolForm o (.str (MarkedName.ofString raw).name) spec :: memberFormList o rest := by
  rw [memberFormList]
  exact notText

mutual

/-- A symbol is described as it is written. -/
theorem describe_tells (complete : Complete v) {scope : Scope} {o : Outlook} (sees : scope.Sees v place o) (path : String)
    (kind : Kind) (spec : Value) (w : Workspace) : Says v (describe scope path kind spec) w
      (Tells v place o w.store.symbols.size kind spec.fields) := by
  match spec with
  | .object fields =>
    have strays := complete.strays
    unfold describe
    refine (readTypeParameters_tells strays sees path _ w).bind fun tps w₁ _ le₁ => ?_
    have inner := sees.hide (tps.map (·.name.text))
    refine (readType?_tells strays inner _ _ w₁).bind fun t w₂ _ le₂ => ?_
    refine (listed_tells _ w₂).bind fun vs w₃ _ le₃ => (readTypes_tells strays inner _ vs w₃).bind fun ext w₄ _ le₄ => ?_
    refine (listed_tells _ w₄).bind fun vs' w₅ _ le₅ => (readTypes_tells strays inner _ vs' w₅).bind fun imp w₆ _ le₆ => ?_
    refine (listed_tells _ w₆).bind fun vs'' w₇ _ le₇ => ?_
    refine (readSignatures_tells strays inner path 0 vs'' w₇).bind fun sigs w₈ _ le₈ => ?_
    refine (membersAmong_tells complete inner _ kind fields w₈).bind fun ms w₉ _ _ => says_pure ?_
    rintro members signatures rfl implemented rfl extended rfl type types
    rw [types.1] at members signatures implemented extended type
    have le : w.store.symbols.size ≤ w₈.store.symbols.size := by omega
    refine ⟨fun owner same => ?_, members.rising.earlier le, members.shown⟩
    have signatures := signatures owner
    rw [same] at signatures
    exact .intro type types.2 signatures extended implemented
  | .null | .bool _ | .int _ | .float _ | .str _ | .list _ =>
    unfold describe
    exact says_throw

theorem membersAmong_tells (complete : Complete v) {scope : Scope} {o : Outlook} (sees : scope.Sees v place o)
    (path : String) (kind : Kind) (fields : List (String × Value)) (w : Workspace) :
    Says v (membersAmong scope path kind fields) w fun ids =>
      MembersShown v place w.store.symbols.size ids (memberFormsAmong o kind fields) := by
  match fields with
  | [] =>
    unfold membersAmong
    exact says_pure (membersShown_nil _)
  | (key, spec) :: rest =>
    unfold membersAmong memberFormsAmong
    split
    · exact members_tells complete sees path kind spec w
    · exact membersAmong_tells complete sees path kind rest w

theorem members_tells (complete : Complete v) {scope : Scope} {o : Outlook} (sees : scope.Sees v place o) (path : String)
    (kind : Kind) (spec : Value) (w : Workspace) : Says v (members scope path kind spec) w fun ids =>
      MembersShown v place w.store.symbols.size ids (memberForms o kind spec) := by
  match spec with
  | .null =>
    unfold members
    refine says_pure ?_
    unfold memberForms
    split <;> exact membersShown_nil _
  | .object fields =>
    unfold members memberForms
    split
    · rw [← Function.comp_def enumMemberForm, ← List.map_map]
      exact nameMembers_tells complete (fields.map fun f => .str f.1) w
    · exact memberList_tells complete sees path fields w
  | .bool _ | .int _ | .float _ | .str _ | .list _ =>
    unfold members memberForms
    split
    · refine (parts_tells _ w).bind fun names w₁ _ le => ?_
      have told : Says v (nameMembers scope names) w₁ fun ids =>
          MembersShown v place w₁.store.symbols.size ids (names.map enumMemberForm) := nameMembers_tells complete names w₁
      exact told.mono fun ids told same => same ▸ told.earlier le
    · exact says_throw

theorem memberList_tells (complete : Complete v) {scope : Scope} {o : Outlook} (sees : scope.Sees v place o)
    (path : String) (fields : List (String × Value)) (w : Workspace) :
    Says v (memberList scope path fields) w fun ids =>
      MembersShown v place w.store.symbols.size ids (memberFormList o fields) := by
  match fields with
  | [] =>
    unfold memberList
    exact says_pure (membersShown_nil _)
  | (raw, spec) :: rest =>
    have others : ∀ w₁, Says v (memberList scope path rest) w₁ fun ids =>
      MembersShown v place w₁.store.symbols.size ids (memberFormList o rest) := memberList_tells complete sees path rest
    by_cases isText : ∃ text, spec = .str text
    · obtain ⟨text, rfl⟩ := isText
      unfold memberList memberFormList
      refine (readType_tells complete.strays sees _ _ w).bind fun t w₁ _ le =>
        Says.member le (fun id here inside => ?_) others
      exact shown_of_described complete here (fun _ _ _ => Description.tells_type (some t) (inside.2.map some)) .nil .nil
    · have notText := not_exists.1 isText
      rw [memberFormList_cons notText]
      unfold memberList
      split
      · exact absurd rfl (notText _)
      · refine (readKind_tells _ spec w).bind fun kind w₁ _ le => ?_
        refine (describe_tells complete sees _ kind spec w₁).bind fun d w₂ _ le' => ?_
        refine (Says.member (R := statedKind? spec = some kind ∧ Tells v place o w₁.store.symbols.size kind spec.fields d)
          (Nat.le_trans le le') (fun id here told => ?_) others).mono
            fun ids told described stated => told ⟨stated, described⟩
        exact told.2.shown complete told.1 here

end

end Document

end DocTree
