import DocTree.Proofs.Document.Shape
import DocTree.Proofs.Outcome

/-!
# Which descriptions are accepted

Whether a description is accepted depends on the description alone, and not on what was loaded before it.

* `build_endsWell`, `readType_endsWell` : types;
* `readTypeParameters_endsWell`, `readSignature_endsWell` : type parameters and signatures;
* `describe_endsWell` : symbols with their members, at any depth.
-/

namespace DocTree.Document

open TypeExpr
open Value (IsText OrNull ListOf ObjectOf IsObject FieldIs)

/-! ## Types -/

theorem inline_endsWell (scope : Scope) (nodes : NodeId → List Node) : EndsWell (scope.builder.inline nodes) True :=
  ((endsWell_modifyGet _).bind fun _ => endsWell_pure _).iff (and_self_iff)

mutual

/-- An expression denotes a type unless there is a number in it that is too long. -/
theorem build_endsWell (scope : Scope) (e : Expr) : EndsWell (build scope.builder e) (e.isShort = true) := by
  match e with
  | .name path args =>
    unfold build Expr.isShort
    refine ((buildAll_endsWell scope args).bind fun ts => (?_ : EndsWell _ True)).iff (by rw [and_true])
    split <;> exact endsWell_pure _
  | .literal value =>
    unfold build Expr.isShort
    exact (endsWell_pure _).iff (iff_of_true trivial rfl)
  | .longNumber =>
    unfold build Expr.isShort
    exact (endsWell_throw _).iff (iff_of_false id Bool.false_ne_true)
  | .query path =>
    unfold build Expr.isShort
    exact ((endsWell_pure _).bind fun _ => endsWell_pure _).iff (iff_of_true ⟨trivial, trivial⟩ rfl)
  | .operator word target =>
    unfold build Expr.isShort
    exact ((build_endsWell scope target).bind fun _ => endsWell_pure _).iff (by rw [and_true])
  | .array element =>
    unfold build Expr.isShort
    exact ((build_endsWell scope element).bind fun _ => endsWell_pure _).iff (by rw [and_true])
  | .union parts | .intersection parts | .tuple parts =>
    unfold build Expr.isShort
    exact ((buildAll_endsWell scope parts).bind fun _ => endsWell_pure _).iff (by rw [and_true])
  | .object members =>
    unfold build Expr.isShort
    exact ((buildMembers_endsWell scope members).bind fun _ => inline_endsWell scope _).iff (by rw [and_true])
  | .function parameters result =>
    unfold build Expr.isShort
    refine ((buildParameters_endsWell scope parameters).bind fun _ =>
      (build_endsWell scope result).bind fun _ => inline_endsWell scope _).iff ?_
    rw [and_true, Bool.and_eq_true]

theorem buildAll_endsWell (scope : Scope) (es : List Expr) :
    EndsWell (buildAll scope.builder es) (areShort es = true) := by
  match es with
  | [] =>
    unfold buildAll areShort
    exact (endsWell_pure _).iff (iff_of_true trivial rfl)
  | e :: es =>
    unfold buildAll areShort
    refine ((build_endsWell scope e).bind fun _ => (buildAll_endsWell scope es).bind fun _ => endsWell_pure _).iff ?_
    rw [and_true, Bool.and_eq_true]

theorem buildMembers_endsWell (scope : Scope) (es : List (String × Expr)) :
    EndsWell (buildMembers scope.builder es) (memberAreShort es = true) := by
  match es with
  | [] =>
    unfold buildMembers memberAreShort
    exact (endsWell_pure _).iff (iff_of_true trivial rfl)
  | (name, e) :: es =>
    unfold buildMembers memberAreShort
    refine ((build_endsWell scope e).bind fun _ =>
      (buildMembers_endsWell scope es).bind fun _ => endsWell_pure _).iff ?_
    rw [and_true, Bool.and_eq_true]

theorem buildParameters_endsWell (scope : Scope) (es : List ((String × Marks) × Expr)) :
    EndsWell (buildParameters scope.builder es) (parametersAreShort es = true) := by
  match es with
  | [] =>
    unfold buildParameters parametersAreShort
    exact (endsWell_pure _).iff (iff_of_true trivial rfl)
  | (name, e) :: es =>
    unfold buildParameters parametersAreShort
    refine ((build_endsWell scope e).bind fun _ =>
      (buildParameters_endsWell scope es).bind fun _ => endsWell_pure _).iff ?_
    rw [and_true, Bool.and_eq_true]

end

/-- A text is read as a type just if it is readable. -/
theorem readType_endsWell (scope : Scope) (path text : String) :
    EndsWell (readType scope path (.str text)) (Readable text) := by
  unfold readType Readable
  simp only
  cases parsed : TypeExpr.parse text with
  | ok e =>
    refine (build_endsWell scope e).iff ⟨fun short => ⟨e, rfl, short⟩, ?_⟩
    rintro ⟨_, same, short⟩
    cases same
    exact short
  | error position =>
    exact ((endsWell_modify _).bind fun _ => endsWell_throw _).iff (iff_of_false (fun absurd => absurd.2) nofun)

theorem readType?_endsWell (scope : Scope) (path : String) {v : Option Value}
    (form : ∀ x, v = some x → OrNull IsText x) :
    EndsWell (readType? scope path v) (∀ text ∈ textIn v, Readable text) := by
  cases v with
  | none => exact endsWell_pure_nil _
  | some x =>
    rcases form x rfl with rfl | ⟨text, rfl⟩
    · exact endsWell_pure_nil _
    · refine ((readType_endsWell scope path text).bind fun _ => endsWell_pure _).iff ?_
      rw [and_true, textIn, List.forall_mem_singleton]

theorem readTypes_endsWell (scope : Scope) (path : String) {vs : List Value} (form : ∀ v ∈ vs, IsText v) :
    EndsWell (readTypes scope path vs) (∀ text ∈ vs.filterMap Value.string?, Readable text) := by
  induction vs with
  | nil => exact endsWell_pure_nil _
  | cons v vs ih =>
    obtain ⟨⟨text, rfl⟩, rest⟩ := List.forall_mem_cons.1 form
    unfold readTypes
    refine ((readType_endsWell scope path text).bind fun _ => (ih rest).bind fun _ => endsWell_pure _).iff ?_
    rw [and_true, List.filterMap_cons_some (Value.string?_str text), List.forall_mem_cons]

variable {α : Type} {Q : Prop} {P : Value → Prop}

theorem getD_eq_object {key : String} {v : Value} (form : v.FieldIs key IsObject) :
    (Value.lookup key v.fields).getD (.object []) = .object (fieldsOf (Value.lookup key v.fields)) := by
  cases here : Value.lookup key v.fields with
  | none => rfl
  | some x =>
    obtain ⟨_, rfl⟩ := form x here
    rfl

theorem forall_mem_fieldsOf {key : String} {v : Value} (form : v.FieldIs key (ObjectOf P)) :
    ∀ f ∈ fieldsOf (Value.lookup key v.fields), P f.2 := by
  cases here : Value.lookup key v.fields with
  | none => exact nofun
  | some x =>
    obtain ⟨_, rfl, all⟩ := form x here
    exact all

theorem listed_eq {key : String} {v : Value} (form : v.FieldIs key (ListOf P)) :
    listed (Value.lookup key v.fields) = pure (partsOf (Value.lookup key v.fields)) ∧
      ∀ item ∈ partsOf (Value.lookup key v.fields), P item := by
  cases here : Value.lookup key v.fields with
  | none => exact ⟨rfl, nofun⟩
  | some x =>
    obtain ⟨items, rfl, all⟩ := form x here
    exact ⟨rfl, all⟩

theorem endsWell_listed {key : String} {v : Value} (form : v.FieldIs key (ListOf P)) {f : List Value → Load α}
    (rest : (∀ item ∈ partsOf (Value.lookup key v.fields), P item) →
      EndsWell (f (partsOf (Value.lookup key v.fields))) Q) :
    EndsWell (listed (Value.lookup key v.fields) >>= f) Q := by
  obtain ⟨same, all⟩ := listed_eq form
  rw [same, pure_bind]
  exact rest all

/-! ## Type parameters and signatures -/

theorem readTypeParameter_endsWell (scope : Scope) (path name : String) {v : Value} (form : BoundForm v) :
    EndsWell (readTypeParameter scope path name v)
      (∀ text ∈ textIn (boundsOf v).1 ++ textIn (boundsOf v).2, Readable text) := by
  rcases form with simple | ⟨⟨fields, rfl⟩, constraint, fallback⟩
  · have text := readType?_endsWell scope path (v := some v) fun x same => Option.some.inj same ▸ simple
    have bounds : boundsOf v = (some v, none) := by rcases simple with rfl | ⟨text, rfl⟩ <;> rfl
    have same : readTypeParameter scope path name v =
        (do return ⟨.str name, ← readType? scope path (some v), none⟩) := by
      rcases simple with rfl | ⟨text, rfl⟩ <;> rfl
    rw [same, bounds]
    refine (text.bind fun _ => endsWell_pure _).iff ?_
    rw [and_true]
    show _ ↔ ∀ text ∈ textIn (some v) ++ [], Readable text
    rw [List.append_nil]
  · unfold readTypeParameter
    refine ((readType?_endsWell scope path constraint).bind fun _ =>
      (readType?_endsWell scope path fallback).bind fun _ => endsWell_pure _).iff ?_
    rw [and_true, List.forall_mem_append]
    rfl

theorem readTypeParameterList_endsWell (scope : Scope) (path : String) {fields : List (String × Value)}
    (form : ∀ p ∈ fields, BoundForm p.2) : EndsWell (readTypeParameterList scope path fields)
      (∀ text ∈ fields.flatMap fun p => textIn (boundsOf p.2).1 ++ textIn (boundsOf p.2).2, Readable text) := by
  induction fields with
  | nil => exact endsWell_pure_nil _
  | cons p fields ih =>
    obtain ⟨first, form⟩ := List.forall_mem_cons.1 form
    unfold readTypeParameterList
    refine ((readTypeParameter_endsWell scope _ p.1 first).bind fun _ => (ih form).bind fun _ => endsWell_pure _).iff ?_
    rw [and_true, List.flatMap_cons]
    exact List.forall_mem_append.symm

theorem readTypeParameters_endsWell (scope : Scope) (path : String) {v : Value}
    (form : v.FieldIs "typeParameters" (ObjectOf BoundForm)) :
    EndsWell (readTypeParameters scope path (Value.lookup "typeParameters" v.fields))
      (∀ text ∈ typeParameterTexts v, Readable text) := by
  unfold typeParameterTexts
  cases here : Value.lookup "typeParameters" v.fields with
  | none => exact endsWell_pure_nil _
  | some x =>
    obtain ⟨fields, rfl, all⟩ := form x here
    unfold readTypeParameters
    simp only
    split
    · rename_i empty
      have none : fields = [] := by simpa [Value.isTruthy] using empty
      subst none
      exact endsWell_pure_nil _
    · exact readTypeParameterList_endsWell _ path all

theorem readParameterList_endsWell (scope : Scope) (path : String) {fields : List (String × Value)}
    (form : ∀ p ∈ fields, IsText p.2) : EndsWell (readParameterList scope path fields)
      (∀ text ∈ fields.flatMap fun p => textIn (some p.2), Readable text) := by
  induction fields with
  | nil => exact endsWell_pure_nil _
  | cons p fields ih =>
    obtain ⟨raw, v⟩ := p
    obtain ⟨⟨text, rfl⟩, rest⟩ := List.forall_mem_cons.1 form
    unfold readParameterList
    refine ((readType_endsWell scope _ text).bind fun _ => (ih rest).bind fun _ => endsWell_pure _).iff ?_
    rw [and_true, List.flatMap_cons, List.forall_mem_append, textIn, List.forall_mem_singleton]

theorem readParameters_endsWell (scope : Scope) (path : String) {v : Value}
    (form : v.FieldIs "parameters" (ObjectOf IsText)) :
    EndsWell (readParameters scope path (Value.lookup "parameters" v.fields))
      (∀ text ∈ (fieldsOf (Value.lookup "parameters" v.fields)).flatMap fun p => textIn (some p.2),
        Readable text) := by
  cases here : Value.lookup "parameters" v.fields with
  | none => exact endsWell_pure_nil _
  | some x =>
    obtain ⟨fields, rfl, all⟩ := form x here
    unfold readParameters
    simp only
    split
    · rename_i empty
      have none : fields = [] := by simpa [Value.isTruthy] using empty
      subst none
      exact endsWell_pure_nil _
    · exact readParameterList_endsWell _ path all

/-- A signature is accepted just if its type expressions can be read. -/
theorem readSignature_endsWell (scope : Scope) (path : String) {v : Value} (form : SignatureForm v) :
    EndsWell (readSignature scope path v) (∀ text ∈ signatureTexts v, Readable text) := by
  obtain ⟨⟨fields, rfl⟩, typeParameters, parameters, returns⟩ := form
  unfold readSignature signatureTexts
  refine ((readTypeParameters_endsWell scope path typeParameters).bind fun tps =>
    (readParameters_endsWell _ path parameters).bind fun _ =>
      (readType?_endsWell (scope.within tps) _ returns).bind fun _ => endsWell_pure _).iff ?_
  rw [and_true, List.forall_mem_append, List.forall_mem_append, and_assoc]

theorem readSignatures_endsWell (scope : Scope) (path : String) (i : Nat) {vs : List Value}
    (form : ∀ v ∈ vs, SignatureForm v) :
    EndsWell (readSignatures scope path i vs) (∀ text ∈ vs.flatMap signatureTexts, Readable text) := by
  induction vs generalizing i with
  | nil => exact endsWell_pure_nil _
  | cons v vs ih =>
    obtain ⟨first, form⟩ := List.forall_mem_cons.1 form
    unfold readSignatures
    refine ((readSignature_endsWell scope _ first).bind fun _ => (ih (i + 1) form).bind fun _ => endsWell_pure _).iff ?_
    rw [and_true, List.flatMap_cons, List.forall_mem_append]

/-! ## Symbols with their members -/

theorem endsWell_ofKind (path : String) {v : Value} {f : Kind → Load α} (rest : EndsWell (f (kindOf v)) Q) :
    EndsWell (readKind path v >>= f) ((statedKind? v).isSome ∧ Q) := by
  intro w
  rw [succeeds_bind]
  constructor
  · rintro ⟨kind, w', read, later⟩
    obtain ⟨stated, rfl⟩ := stated_of_readKind read
    have same : kindOf v = kind := by rw [kindOf, stated, Option.getD_some]
    exact ⟨stated ▸ rfl, (rest w').1 (same ▸ later)⟩
  · rintro ⟨stated, here⟩
    obtain ⟨kind, stated⟩ := Option.isSome_iff_exists.1 stated
    have same : kindOf v = kind := by rw [kindOf, stated, Option.getD_some]
    exact ⟨kind, w, readKind_of_stated stated path w, same ▸ (rest w).2 here⟩

theorem nameMembers_endsWell (scope : Scope) (names : List Value) : EndsWell (nameMembers scope names) True := by
  induction names with
  | nil => exact endsWell_pure _
  | cons name names ih =>
    unfold nameMembers
    exact ((endsWell_modifyGet _).bind fun _ => ih.bind fun _ => endsWell_pure _).iff (by simp)

theorem membersAmong_eq (scope : Scope) (path : String) (kind : Kind) (fields : List (String × Value)) :
    membersAmong scope path kind fields = members scope path kind ((Value.lookup "members" fields).getD .null) := by
  induction fields with
  | nil =>
    unfold membersAmong members
    rfl
  | cons field fields ih =>
    obtain ⟨key, v⟩ := field
    unfold membersAmong Value.lookup
    split
    · rfl
    · exact ih

/-- Members that are described like symbols have to be in order, and the types of the others have to be readable. -/
theorem memberList_endsWell (scope : Scope) (path : String) {fields : List (String × Value)}
    (form : ∀ f ∈ fields, IsText f.2 ∨ IsObject f.2)
    (inner : ∀ m ∈ (fields.map Prod.snd).filter (·.string?.isNone), ∀ path,
      EndsWell (describe scope path (kindOf m) m) (Legible m)) :
    EndsWell (memberList scope path fields)
      ((∀ text ∈ fields.flatMap fun f => textIn (some f.2), Readable text) ∧
        ∀ m ∈ (fields.map Prod.snd).filter (·.string?.isNone), Describable m) := by
  induction fields with
  | nil =>
    unfold memberList
    exact (endsWell_pure _).iff (iff_of_true trivial ⟨nofun, nofun⟩)
  | cons field fields ih =>
    obtain ⟨raw, spec⟩ := field
    obtain ⟨first, rest⟩ := List.forall_mem_cons.1 form
    rw [List.flatMap_cons, List.forall_mem_append]
    rw [List.map_cons] at inner ⊢
    unfold memberList
    rcases first with ⟨text, rfl⟩ | ⟨parts, rfl⟩
    · rw [List.filter_cons_of_neg (by simp)] at inner ⊢
      have types : textIn (some (raw, Value.str text).2) = [text] := rfl
      refine ((readType_endsWell scope _ text).bind fun _ => (endsWell_modifyGet _).bind fun _ =>
        (ih rest inner).bind fun _ => endsWell_pure _).iff ?_
      rw [types, List.forall_mem_singleton, and_true, true_and, and_assoc]
    · rw [List.filter_cons_of_pos rfl] at inner ⊢
      obtain ⟨here, others⟩ := List.forall_mem_cons.1 inner
      have types : textIn (some (raw, Value.object parts).2) = [] := rfl
      refine (endsWell_ofKind _ ((here _).bind fun _ => (endsWell_modifyGet _).bind fun _ =>
        (ih rest others).bind fun _ => endsWell_pure _)).iff ?_
      rw [types, List.forall_mem_cons, describable_iff, and_true, true_and]
      simp only [List.not_mem_nil, false_implies, implies_true, true_and]
      tauto

theorem members_endsWell (scope : Scope) (path : String) {v : Value} (form : SymbolForm v)
    (inner : ∀ m ∈ innerSpecs v, ∀ path, EndsWell (describe scope path (kindOf m) m) (Legible m)) :
    EndsWell (members scope path (kindOf v) ((Value.lookup "members" v.fields).getD .null))
      ((∀ text ∈ (membersOf v).flatMap fun m => textIn (some m.2), Readable text) ∧
        ∀ m ∈ innerSpecs v, Describable m) := by
  have enumerated := form.enumeration
  have listed := form.members
  unfold innerSpecs membersOf at inner ⊢
  unfold isEnumeration at inner enumerated listed ⊢
  cases enum : (kindOf v).meets .enumeration
  · rw [enum] at inner
    simp only [Bool.false_eq_true, if_false] at inner ⊢
    cases here : Value.lookup "members" v.fields with
    | none =>
      unfold Option.getD members
      exact (endsWell_pure _).iff (iff_of_true trivial ⟨nofun, nofun⟩)
    | some x =>
      rw [here] at inner
      rcases listed enum x here with rfl | ⟨fields, rfl, all⟩
      · unfold Option.getD members
        exact (endsWell_pure _).iff (iff_of_true trivial ⟨nofun, nofun⟩)
      · unfold Option.getD members
        simp only [enum, Bool.false_eq_true, if_false]
        exact memberList_endsWell scope path all inner
  · simp only [if_true]
    refine EndsWell.iff (P := True) ?_ (iff_of_true trivial ⟨nofun, nofun⟩)
    cases here : Value.lookup "members" v.fields with
    | none =>
      unfold Option.getD members
      exact endsWell_pure _
    | some x =>
      rcases enumerated enum x here with rfl | ⟨items, rfl, _⟩
      · unfold Option.getD members
        exact endsWell_pure _
      · unfold Option.getD members
        simp only [enum, if_true]
        exact nameMembers_endsWell scope items

theorem sizeOf_lt_of_mem_fields {v : Value} {f : String × Value} (mem : f ∈ v.fields) : sizeOf f.2 < sizeOf v := by
  cases v with
  | object fields =>
    have field := List.sizeOf_lt_of_mem (show f ∈ fields from mem)
    have pair : sizeOf f = 1 + sizeOf f.1 + sizeOf f.2 := rfl
    rw [Value.object.sizeOf_spec]
    omega
  | _ => cases mem

theorem mem_of_lookup {fields : List (String × Value)} {key : String} {v : Value}
    (here : Value.lookup key fields = some v) : (key, v) ∈ fields := by
  induction fields with
  | nil => cases here
  | cons field fields ih =>
    unfold Value.lookup at here
    split at here
    · rename_i same
      cases here
      exact same ▸ List.mem_cons_self
    · exact List.mem_cons_of_mem _ (ih here)

theorem sizeOf_lt_of_mem_innerSpecs {v m : Value} (mem : m ∈ innerSpecs v) : sizeOf m < sizeOf v := by
  obtain ⟨f, inside, rfl⟩ := List.mem_map.1 (List.mem_filter.1 mem).1
  unfold membersOf at inside
  split at inside
  · cases inside
  · cases here : Value.lookup "members" v.fields with
    | none =>
      rw [here] at inside
      cases inside
    | some members =>
      rw [here] at inside
      exact Nat.lt_trans (sizeOf_lt_of_mem_fields inside) (sizeOf_lt_of_mem_fields (mem_of_lookup here))

/-- A description is accepted just if all types and all kinds in it are known. -/
theorem describe_endsWell (scope : Scope) (path : String) (v : Value) (form : ∀ u, Nested v u → SymbolForm u) :
    EndsWell (describe scope path (kindOf v) v) (Legible v) := by
  obtain ⟨here, inner⟩ := all_nested_iff.1 form
  have deeper : ∀ scope, ∀ m ∈ innerSpecs v, ∀ path, EndsWell (describe scope path (kindOf m) m) (Legible m) :=
    fun scope m mem path => describe_endsWell scope path m (inner m mem)
  obtain ⟨fields, rfl⟩ := here.object
  unfold describe
  refine ((readTypeParameters_endsWell scope path here.typeParameters).bind fun tps =>
    (readType?_endsWell (scope.within tps) _ here.type).bind fun _ =>
    endsWell_listed here.extended fun extended =>
      (readTypes_endsWell (scope.within tps) _ extended).bind fun _ =>
    endsWell_listed here.implemented fun implemented =>
      (readTypes_endsWell (scope.within tps) _ implemented).bind fun _ =>
    endsWell_listed here.signatures fun signatures =>
      (readSignatures_endsWell (scope.within tps) _ 0 signatures).bind fun _ =>
    (membersAmong_eq (scope.within tps) _ _ fields ▸ members_endsWell _ _ here (deeper _)).bind fun _ =>
      endsWell_pure _).iff ?_
  rw [and_true]
  constructor
  · rintro ⟨typeParameters, type, extended, implemented, signatures, types, members⟩
    refine ⟨?_, members⟩
    simp only [typeTexts, List.forall_mem_append]
    exact ⟨⟨⟨⟨⟨typeParameters, type⟩, extended⟩, implemented⟩, signatures⟩, types⟩
  · rintro ⟨texts, members⟩
    simp only [typeTexts, List.forall_mem_append] at texts
    obtain ⟨⟨⟨⟨⟨typeParameters, type⟩, extended⟩, implemented⟩, signatures⟩, types⟩ := texts
    exact ⟨typeParameters, type, extended, implemented, signatures, types, members⟩
termination_by sizeOf v
decreasing_by exact sizeOf_lt_of_mem_innerSpecs mem

/-! ## Programs -/

theorem describeSymbols_endsWell (scope : Scope) {ps : List Pending} (kinds : ∀ p ∈ ps, p.kind = kindOf p.spec)
    (form : ∀ p ∈ ps, ∀ u, Nested p.spec u → SymbolForm u) :
    EndsWell (describeSymbols scope ps) (∀ p ∈ ps, isOpaque p.spec = false → Legible p.spec) := by
  induction ps with
  | nil => exact endsWell_pure_nil _
  | cons p ps ih =>
    obtain ⟨kind, kinds⟩ := List.forall_mem_cons.1 kinds
    obtain ⟨first, form⟩ := List.forall_mem_cons.1 form
    have rest := ih kinds form
    unfold describeSymbols
    rw [List.forall_mem_cons]
    cases marked : isOpaque p.spec
    · simp only [Bool.not_false, if_true, kind]
      refine ((describe_endsWell scope _ p.spec first).bind fun _ => (endsWell_modify _).bind fun _ => rest).iff ?_
      rw [true_and]
      simp only [forall_const]
    · exact rest.iff (by simp)

theorem describePrograms_endsWell (project : NodeId) {ps : List DeclaredProgram}
    (kinds : ∀ p ∈ ps, ∀ s ∈ p.pending, s.kind = kindOf s.spec)
    (form : ∀ p ∈ ps, ∀ s ∈ p.pending, ∀ u, Nested s.spec u → SymbolForm u) :
    EndsWell (describePrograms project ps)
      (∀ p ∈ ps, ∀ s ∈ p.pending, isOpaque s.spec = false → Legible s.spec) := by
  induction ps with
  | nil => exact endsWell_pure_nil _
  | cons p ps ih =>
    obtain ⟨kind, kinds⟩ := List.forall_mem_cons.1 kinds
    obtain ⟨first, form⟩ := List.forall_mem_cons.1 form
    unfold describePrograms
    rw [List.forall_mem_cons]
    exact (describeSymbols_endsWell _ kind first).bind fun _ => ih kinds form

theorem declares_iff {v : Value} (object : IsObject v) (symbols : v.FieldIs "symbols" IsObject) :
    Declares v ↔ ∀ s ∈ programSpecs v, (statedKind? s.2).isSome := by
  refine ⟨Declares.stated, fun stated => ⟨?_, stated⟩⟩
  obtain ⟨fields, rfl⟩ := object
  refine ⟨fields, rfl, ?_⟩
  have list : (Value.lookup "symbols" fields).getD (.object []) = _ := getD_eq_object symbols
  unfold programSpecs
  simp only [list]

/-- What waits for a description is what the programs list. -/
theorem forall_pending_iff {P : Value → Prop} {low : SymbolId} {programs : List (String × Value)} :
    (∀ p ∈ (placed low programs).map fun b => declaredAt b.1 b.2, ∀ s ∈ p.pending, P s.spec) ↔
      ∀ p ∈ programs, ∀ s ∈ programSpecs p.2, P s.2 := by
  have blocks := map_fst_starts (fun p => (itemsOf p).length) low programs
  constructor
  · intro all p mem s inside
    obtain ⟨b, placed, rfl⟩ := List.mem_map.1 (blocks ▸ mem)
    have item : (⟨b.1.1, s.1, s.2⟩ : Item) ∈ (numbered b.2 (itemsOf b.1)).map Prod.fst := by
      rw [numbered, map_fst_starts]
      exact List.mem_map_of_mem inside
    obtain ⟨e, here, same⟩ := List.mem_map.1 item
    have found := all _ (List.mem_map_of_mem placed) (e.1.pending e.2) (List.mem_map_of_mem here)
    rw [same] at found
    exact found
  · intro all p mem s inside
    obtain ⟨b, placed, rfl⟩ := List.mem_map.1 mem
    obtain ⟨e, here, rfl⟩ := List.mem_map.1 inside
    obtain ⟨spec, listed, same⟩ := List.mem_map.1 (mem_of_mem_starts here)
    show P e.1.spec
    rw [← same]
    exact all b.1 (mem_of_mem_starts placed) spec listed

/-- Programs are loaded just if all kinds in them are known, and all types but those in opaque symbols. -/
theorem loadPrograms_endsWell (source : Value) {programs : List (String × Value)}
    (object : ∀ p ∈ programs, IsObject p.2 ∧ p.2.FieldIs "symbols" IsObject)
    (form : ∀ p ∈ programs, ∀ s ∈ programSpecs p.2, ∀ v, Nested s.2 v → SymbolForm v) :
    EndsWell (loadPrograms source (.object programs))
      ((∀ p ∈ programs, ∀ s ∈ programSpecs p.2, (statedKind? s.2).isSome) ∧
        ∀ p ∈ programs, ∀ s ∈ programSpecs p.2, isOpaque s.2 = false → Legible s.2) := by
  intro w
  have declares : (∀ p ∈ programs, Declares p.2) ↔
      ∀ p ∈ programs, ∀ s ∈ programSpecs p.2, (statedKind? s.2).isSome :=
    forall₂_congr fun p mem => declares_iff (object p mem).1 (object p mem).2
  show Succeeds (declarePrograms programs >>= fun ps => get >>= fun v => describePrograms v.project ps) w ↔ _
  rw [← declares]
  refine succeeds_bind_iff ⟨?_, fun all => ⟨_, _, declarePrograms_eq all w⟩⟩ fun ps u declared => ?_
  · rintro ⟨ps, u, declared⟩
    exact declares_of_declarePrograms declared
  · rw [declarePrograms_eq (declares_of_declarePrograms declared) w] at declared
    cases declared
    have got : (get : Load Workspace) (declaredIn w ((items programs).map Item.symbol)
        (tableOf (placed w.store.symbols.size programs) w.programs)) = .ok _ _ := rfl
    rw [succeeds_bind_of_ok got, ← forall_pending_iff (P := fun v => isOpaque v = false → Legible v)]
    refine describePrograms_endsWell _ (fun p mem s inside => ?_)
      ((forall_pending_iff (P := fun v => ∀ u, Nested v u → SymbolForm u)).2 form) _
    obtain ⟨b, _, rfl⟩ := List.mem_map.1 mem
    obtain ⟨e, _, rfl⟩ := List.mem_map.1 inside
    rfl

end DocTree.Document
