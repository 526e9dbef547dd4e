import DocTree.Proofs.Output.Reader

/-!
# The form of a type tells the type

* `Value.Matches` : equality of JSON values, which keeps truth values, whole numbers and doubles apart and has no
  regard for the order of fields;
* `Ty.Built` : a type that is built from the twenty shapes;
* `Ty.Same` : types with the same structure, in which references are compared by what they say and where they lead, and
  inline declarations by their forms;
* `tag_eq_of_matches` : the form of a type tells its shape;
* `same_of_toValue`, `same_of_matches` : the form of a type tells the type, whatever the project looks like.
-/

namespace DocTree

open Value (lookup)

/-! ## Equality of values -/

/-- Equality of JSON values. Values of different kinds are different. Objects are equal if they have fields of the same
names, in any order, with equal values. -/
inductive Value.Matches : Value → Value → Prop
  | null : Matches .null .null
  | bool (b : Bool) : Matches (.bool b) (.bool b)
  | int (n : Int) : Matches (.int n) (.int n)
  | float (x : Float) : Matches (.float x) (.float x)
  | str (text : String) : Matches (.str text) (.str text)
  | list {vs ws : List Value} (items : List.Forall₂ Matches vs ws) : Matches (.list vs) (.list ws)
  | object {fields fields' : List (String × Value)}
      (same : ∀ key, Option.Rel Matches (lookup key fields) (lookup key fields')) :
      Matches (.object fields) (.object fields')

namespace Value

theorem lookup_of_eq {key : String} {f : String × Value} (eq : f.1 = key) (fields : List (String × Value)) :
    lookup key (f :: fields) = some f.2 := by
  rw [lookup, if_pos eq]

mutual

theorem Matches.refl : ∀ v : Value, Matches v v
  | .null => .null
  | .bool b => .bool b
  | .int n => .int n
  | .float x => .float x
  | .str text => .str text
  | .list vs => .list (Matches.refl_items vs)
  | .object fields => .object (Matches.refl_fields fields)

theorem Matches.refl_items : ∀ vs : List Value, List.Forall₂ Matches vs vs
  | [] => .nil
  | v :: vs => .cons (Matches.refl v) (Matches.refl_items vs)

theorem Matches.refl_fields : ∀ (fields : List (String × Value)) (key : String),
    Option.Rel Matches (lookup key fields) (lookup key fields)
  | [], _ => .none
  | (name, v) :: fields, key => by
    rw [lookup]
    split
    · exact .some (Matches.refl v)
    · exact Matches.refl_fields fields key

end

theorem Matches.field {v w : Value} (h : Matches v w) (key : String) :
    Option.Rel Matches (lookup key v.fields) (lookup key w.fields) := by
  cases h with
  | object same => exact same key
  | _ => exact .none

theorem Matches.items {vs ws : List Value} (h : Matches (.list vs) (.list ws)) : List.Forall₂ Matches vs ws := by
  cases h with
  | list items => exact items

theorem Matches.str_eq {a b : String} (h : Matches (.str a) (.str b)) : a = b := by
  cases h
  rfl

theorem Matches.int_eq {n m : Int} (h : Matches (.int n) (.int m)) : n = m := by
  cases h
  rfl

end Value

namespace Ty

/-! ## Equality of types -/

/-- A type that is built from the twenty shapes: nothing is absent in it, and a package is a text or none. -/
structure Built (t : Ty) : Prop where
  complete : t.isComplete = true
  packages : ∀ u ∈ t.nested, ∀ name link args package, u = .reference name link args package →
    package = .null ∨ ∃ text, package = .str text

/-- Whether two packages are the same. An empty one is none. -/
def SamePackage (p q : Value) : Prop := p = q ∨ p ∈ [.null, .str ""] ∧ q ∈ [.null, .str ""]

/-- Types with the same structure. Two references are the same if they have the same name, package and arguments, and
lead to the same node or both to none; two inline types, if their declarations have the same form. -/
inductive Same (target : Link → Option NodeId) (declared : NodeId → Value) : Ty → Ty → Prop
  | intrinsic {n n' : Value} (name : n.Matches n') : Same target declared (.intrinsic n) (.intrinsic n')
  | literal {v v' : Value} (value : v.Matches v') : Same target declared (.literal v) (.literal v')
  | unknown {n n' : Value} (name : n.Matches n') : Same target declared (.unknown n) (.unknown n')
  | reference {n n' p p' : Value} {l l' : Link} {ts ts' : List Ty} (name : n.Matches n')
      (leads : target l = target l') (args : List.Forall₂ (Same target declared) ts ts') (package : SamePackage p p') :
      Same target declared (.reference n l ts p) (.reference n' l' ts' p')
  | inline {d d' : NodeId} (form : (declared d).Matches (declared d')) :
      Same target declared (.inline d) (.inline d')
  | array {e e' : Ty} (element : Same target declared e e') : Same target declared (.array e) (.array e')
  | union {ts ts' : List Ty} (types : List.Forall₂ (Same target declared) ts ts') :
      Same target declared (.union ts) (.union ts')
  | intersection {ts ts' : List Ty} (types : List.Forall₂ (Same target declared) ts ts') :
      Same target declared (.intersection ts) (.intersection ts')
  | tuple {ts ts' : List Ty} (elements : List.Forall₂ (Same target declared) ts ts') :
      Same target declared (.tuple ts) (.tuple ts')
  | namedMember {n n' o o' : Value} {e e' : Ty} (name : n.Matches n') (isOptional : o.Matches o')
      (element : Same target declared e e') : Same target declared (.namedMember n o e) (.namedMember n' o' e')
  | optional {e e' : Ty} (element : Same target declared e e') : Same target declared (.optional e) (.optional e')
  | rest {e e' : Ty} (element : Same target declared e e') : Same target declared (.rest e) (.rest e')
  | conditional {a a' b b' c c' d d' : Ty} (check : Same target declared a a') (bound : Same target declared b b')
      (whenTrue : Same target declared c c') (whenFalse : Same target declared d d') :
      Same target declared (.conditional a b c d) (.conditional a' b' c' d')
  | indexedAccess {o o' i i' : Ty} (object : Same target declared o o') (index : Same target declared i i') :
      Same target declared (.indexedAccess o i) (.indexedAccess o' i')
  | inferred {n n' : Value} {c c' : Option Ty} (name : n.Matches n')
      (constraint : Option.Rel (Same target declared) c c') : Same target declared (.inferred n c) (.inferred n' c')
  | mapped {p p' : Value} {d d' b b' : Ty} {m m' : Option Ty} (parameter : p.Matches p')
      (domain : Same target declared d d') (body : Same target declared b b')
      (newName : Option.Rel (Same target declared) m m') : Same target declared (.mapped p d b m) (.mapped p' d' b' m')
  | predicate {n n' a a' : Value} {t t' : Option Ty} (name : n.Matches n') (asserts : a.Matches a')
      (tested : Option.Rel (Same target declared) t t') : Same target declared (.predicate n a t) (.predicate n' a' t')
  | query {t t' : Ty} (queried : Same target declared t t') : Same target declared (.query t) (.query t')
  | operator {n n' : Value} {t t' : Ty} (name : n.Matches n') (operand : Same target declared t t') :
      Same target declared (.operator n t) (.operator n' t')
  | template {h h' : Value} {ps ps' : List (Ty × Value)} (head : h.Matches h')
      (types : List.Forall₂ (Same target declared) (ps.map Prod.fst) (ps'.map Prod.fst))
      (texts : List.Forall₂ Value.Matches (ps.map Prod.snd) (ps'.map Prod.snd)) :
      Same target declared (.template h ps) (.template h' ps')

variable {target : Link → Option NodeId} {declared : NodeId → Value} {t u : Ty}

/-! ## Built types -/

theorem nested_subset_of_children {c : Ty} (mem : c ∈ t.children) : c.nested ⊆ t.nested := by
  intro u inside
  rw [nested_eq t]
  exact List.mem_cons_of_mem _ (List.mem_flatMap.2 ⟨c, mem, inside⟩)

theorem Built.there (h : t.Built) : t.isAbsent = false := by
  have all := List.all_eq_true.1 h.complete t (mem_nested_self t)
  simpa using all

theorem Built.child (h : t.Built) {c : Ty} (mem : c ∈ t.children) : c.Built where
  complete := List.all_eq_true.2 fun u inside =>
    List.all_eq_true.1 h.complete u (nested_subset_of_children mem inside)
  packages := fun u inside => h.packages u (nested_subset_of_children mem inside)

/-- A package is written unless it is empty. -/
theorem samePackage_of_rel {p q : Value} (text : p = .null ∨ ∃ a, p = .str a) (text' : q = .null ∨ ∃ b, q = .str b)
    (h : Option.Rel Value.Matches (unlessEmpty p) (unlessEmpty q)) : SamePackage p q := by
  have written : ∀ {p : Value}, (p = .null ∨ ∃ a, p = .str a) →
      unlessEmpty p = none ∧ p ∈ [.null, .str ""] ∨ unlessEmpty p = some p ∧ ∃ a, p = .str a := by
    rintro _ (rfl | ⟨a, rfl⟩)
    · exact .inl ⟨rfl, List.mem_cons_self⟩
    · by_cases empty : a = ""
      · subst empty
        exact .inl ⟨rfl, List.mem_cons_of_mem _ List.mem_cons_self⟩
      · exact .inr ⟨by simp [unlessEmpty, Value.isTruthy, empty], a, rfl⟩
  obtain ⟨eq, here⟩ | ⟨eq, a, rfl⟩ := written text <;> obtain ⟨eq', there⟩ | ⟨eq', b, rfl⟩ := written text'
  · exact .inr ⟨here, there⟩
  · rw [eq, eq'] at h
    cases h
  · rw [eq, eq'] at h
    cases h
  · rw [eq, eq'] at h
    cases h with
    | some same => exact .inl (by rw [same.str_eq])

theorem lookup_present_self {key : String} (there : t.isAbsent = false) (form : Value) :
    lookup key (present key t form) = some form := by
  rw [present, if_neg (by rw [there]; exact Bool.false_ne_true), lookup, if_pos rfl]

theorem tag_eq_of_matches (built : t.Built) (built' : u.Built)
    (h : (t.toValue target declared).Matches (u.toValue target declared)) : t.tag = u.tag := by
  have rel := h.field "type"
  rw [type_toValue target declared built.there, type_toValue target declared built'.there] at rel
  cases rel with
  | some same => exact same.str_eq

/-! ## Parts -/

theorem same_items {ts us : List Ty} (built : ∀ u ∈ us, u.Built)
    (ih : ∀ t ∈ ts, ∀ u : Ty, u.Built → (t.toValue target declared).Matches (u.toValue target declared) →
      Same target declared t u)
    (h : List.Forall₂ Value.Matches (ts.map (toValue target declared)) (us.map (toValue target declared))) :
    List.Forall₂ (Same target declared) ts us := by
  induction ts generalizing us with
  | nil =>
    cases us with
    | nil => exact .nil
    | cons u us => cases h
  | cons t ts next =>
    cases us with
    | nil => cases h
    | cons u us =>
      rw [List.forall_mem_cons] at built ih
      rw [List.map_cons, List.map_cons, List.forall₂_cons] at h
      exact .cons (ih.1 u built.1 h.1) (next built.2 ih.2 h.2)

/-- A part that may be missing, by the field that holds it. -/
def optionalPart (form : Ty → Value) (key : String) (part : Option Ty) : List (String × Value) :=
  part.elim [] fun c => present key c (form c)

theorem lookup_optionalPart {key key' : String} (ne : key' ≠ key) (form : Ty → Value) (part : Option Ty) :
    lookup key (optionalPart form key' part) = none := by
  cases part with
  | none => rfl
  | some c => exact lookup_present ne c (form c)

theorem toValue_inferred (name : Value) (constraint : Option Ty) : toValue target declared (.inferred name constraint) =
    .object ([("type", .str "inferred"), ("name", name)]
      ++ optionalPart (toValue target declared) "constraint" constraint) := by
  cases constraint <;> simp [toValue, optionalPart]

theorem toValue_predicate (name asserts : Value) (tested : Option Ty) :
    toValue target declared (.predicate name asserts tested) =
      .object ([("type", .str "predicate"), ("name", name), ("asserts", asserts)]
        ++ optionalPart (toValue target declared) "targetType" tested) := by
  cases tested <;> simp [toValue, optionalPart]

theorem toValue_mapped (parameter : Value) (domain body : Ty) (newName : Option Ty) :
    toValue target declared (.mapped parameter domain body newName) =
      .object ([("type", .str "mapped"), ("parameter", parameter)]
        ++ present "parameterType" domain (toValue target declared domain)
        ++ present "templateType" body (toValue target declared body)
        ++ optionalPart (toValue target declared) "nameType" newName) := by
  cases newName <;> simp [toValue, optionalPart]

theorem toValue_reference (name : Value) (link : Link) (args : List Ty) (package : Value) :
    toValue target declared (.reference name link args package) =
      .object ([("type", .str "reference"), ("name", name),
          ("target", ((target link).map fun id => .int id).getD .null)]
        ++ optionalField "package" (unlessEmpty package)
        ++ Store.listField "typeArguments" (args.map (toValue target declared))) := by
  cases args <;> simp [toValue, Store.listField, toValues_eq]

theorem toValue_template (head : Value) (tail : List (Ty × Value)) :
    toValue target declared (.template head tail) =
      .object ([("type", .str "templateLiteral"), ("head", head)]
        ++ Store.listField "tail" (tail.map fun p => .list [p.1.toValue target declared, p.2])) := by
  cases tail <;> simp [toValue, Store.listField, toTail_eq]

theorem leads_of_matches {o o' : Option NodeId}
    (h : Value.Matches ((o.map fun id => .int id).getD .null) ((o'.map fun id => .int id).getD .null)) : o = o' := by
  cases o with
  | none =>
    cases o' with
    | none => rfl
    | some id => cases h
  | some id =>
    cases o' with
    | none => cases h
    | some id' => exact congrArg some (Int.ofNat.inj h.int_eq)

/-- A list is written unless it is empty. -/
theorem items_of_rel {key : String} {vs ws : List Value}
    (h : Option.Rel Value.Matches (lookup key (Store.listField key vs)) (lookup key (Store.listField key ws))) :
    List.Forall₂ Value.Matches vs ws := by
  have written : ∀ v vs, lookup key (Store.listField key (v :: vs)) = some (.list (v :: vs)) :=
    fun v vs => Value.lookup_of_eq rfl []
  cases vs with
  | nil =>
    cases ws with
    | nil => exact .nil
    | cons w ws =>
      rw [written] at h
      cases h
  | cons v vs =>
    rw [written] at h
    cases ws with
    | nil => cases h
    | cons w ws =>
      rw [written, Option.rel_some_some] at h
      exact h.items

/-- The tail of a template is written as pairs. -/
theorem tail_of_items {form : Ty → Value} {ps ps' : List (Ty × Value)}
    (h : List.Forall₂ Value.Matches (ps.map fun p => .list [form p.1, p.2]) (ps'.map fun p => .list [form p.1, p.2])) :
    List.Forall₂ Value.Matches ((ps.map Prod.fst).map form) ((ps'.map Prod.fst).map form) ∧
      List.Forall₂ Value.Matches (ps.map Prod.snd) (ps'.map Prod.snd) := by
  induction ps generalizing ps' with
  | nil =>
    cases ps' with
    | nil => exact ⟨.nil, .nil⟩
    | cons p' ps' => cases h
  | cons p ps ih =>
    cases ps' with
    | nil => cases h
    | cons p' ps' =>
      rw [List.map_cons, List.map_cons, List.forall₂_cons] at h
      obtain ⟨types, texts⟩ := ih h.2
      have pair := h.1.items
      rw [List.forall₂_cons, List.forall₂_cons] at pair
      exact ⟨.cons pair.1 types, .cons pair.2.1 texts⟩

theorem same_part {key : String} {o o' : Option Ty} (built : ∀ t ∈ o, t.Built) (built' : ∀ u ∈ o', u.Built)
    (ih : ∀ t ∈ o, ∀ u : Ty, u.Built → (t.toValue target declared).Matches (u.toValue target declared) →
      Same target declared t u)
    (h : Option.Rel Value.Matches (lookup key (optionalPart (toValue target declared) key o))
      (lookup key (optionalPart (toValue target declared) key o'))) : Option.Rel (Same target declared) o o' := by
  have written : ∀ {o : Option Ty}, (∀ t ∈ o, t.Built) →
      lookup key (optionalPart (toValue target declared) key o) = o.map (toValue target declared) := by
    intro o built
    cases o with
    | none => rfl
    | some t => exact lookup_present_self (built t rfl).there _
  rw [written built, written built'] at h
  cases o with
  | none =>
    cases o' with
    | none => exact .none
    | some u => cases h
  | some t =>
    cases o' with
    | none => cases h
    | some u =>
      cases h with
      | some same => exact .some (ih t rfl u (built' u rfl) same)

attribute [local simp] toValue toValue_inferred toValue_predicate toValue_mapped toValues_eq
  Value.fields Value.lookup Value.lookup_append lookup_present lookup_optionalPart Store.lookup_optionalField
  Store.lookup_optionalField_self Store.lookup_listField children tag

/-- The form of a type tells the type. -/
theorem same_of_toValue (built : t.Built) (built' : u.Built)
    (h : (t.toValue target declared).Matches (u.toValue target declared)) : Same target declared t u := by
  -- The tag tells the shape; each part has a field of its own, a part that is missing has none.
  induction t using children_induction generalizing u with
  | step t ih =>
    have tags := tag_eq_of_matches built built' h
    have next : ∀ c ∈ t.children, ∀ c' : Ty, c'.Built →
        (c.toValue target declared).Matches (c'.toValue target declared) → Same target declared c c' :=
      fun c mem _ => ih c mem (built.child mem)
    have items : List.Forall₂ Value.Matches (t.children.map (toValue target declared))
        (u.children.map (toValue target declared)) → List.Forall₂ (Same target declared) t.children u.children :=
      same_items (fun c => built'.child) next
    have part : ∀ (key : String) {o o' : Option Ty}, (∀ c ∈ o, c ∈ t.children) → (∀ c ∈ o', c ∈ u.children) →
        Option.Rel Value.Matches (lookup key (optionalPart (toValue target declared) key o))
          (lookup key (optionalPart (toValue target declared) key o')) → Option.Rel (Same target declared) o o' :=
      fun _ _ _ sub sub' => same_part (fun c mem => built.child (sub c mem)) (fun c mem => built'.child (sub' c mem))
        fun c mem => next c (sub c mem)
    have child : ∀ (key : String) {c c' : Ty}, c ∈ t.children → c' ∈ u.children →
        Option.Rel Value.Matches (lookup key (present key c (toValue target declared c)))
          (lookup key (present key c' (toValue target declared c'))) → Same target declared c c' := by
      intro key c c' mem mem' rel
      rw [lookup_present_self (built.child mem).there, lookup_present_self (built'.child mem').there] at rel
      exact next c mem c' (built'.child mem') (Option.rel_some_some.1 rel)
    cases t with
    | absent => cases built.there
    | intrinsic n =>
      cases u with
      | intrinsic n' => exact .intrinsic (by simpa using h.field "name")
      | _ => simp at tags
    | literal v =>
      cases u with
      | literal v' => exact .literal (by simpa using h.field "value")
      | _ => simp at tags
    | unknown n =>
      cases u with
      | unknown n' => exact .unknown (by simpa using h.field "name")
      | _ => simp at tags
    | inline d =>
      cases u with
      | inline d' => exact .inline (by simpa using h.field "declaration")
      | _ => simp at tags
    | array e =>
      cases u with
      | array e' => exact .array (child "elementType" (by simp) (by simp) (by simpa using h.field "elementType"))
      | _ => simp at tags
    | optional e =>
      cases u with
      | optional e' => exact .optional (child "elementType" (by simp) (by simp) (by simpa using h.field "elementType"))
      | _ => simp at tags
    | rest e =>
      cases u with
      | rest e' => exact .rest (child "elementType" (by simp) (by simp) (by simpa using h.field "elementType"))
      | _ => simp at tags
    | query q =>
      cases u with
      | query q' => exact .query (child "queryType" (by simp) (by simp) (by simpa using h.field "queryType"))
      | _ => simp at tags
    | operator n o =>
      cases u with
      | operator n' o' =>
        exact .operator (by simpa using h.field "operator")
          (child "target" (by simp) (by simp) (by simpa using h.field "target"))
      | _ => simp at tags
    | namedMember n o e =>
      cases u with
      | namedMember n' o' e' =>
        exact .namedMember (by simpa using h.field "name") (by simpa using h.field "isOptional")
          (child "element" (by simp) (by simp) (by simpa using h.field "element"))
      | _ => simp at tags
    | indexedAccess o i =>
      cases u with
      | indexedAccess o' i' =>
        exact .indexedAccess (child "objectType" (by simp) (by simp) (by simpa using h.field "objectType"))
          (child "indexType" (by simp) (by simp) (by simpa using h.field "indexType"))
      | _ => simp at tags
    | conditional a b c d =>
      cases u with
      | conditional a' b' c' d' =>
        exact .conditional (child "checkType" (by simp) (by simp) (by simpa using h.field "checkType"))
          (child "extendsType" (by simp) (by simp) (by simpa using h.field "extendsType"))
          (child "trueType" (by simp) (by simp) (by simpa using h.field "trueType"))
          (child "falseType" (by simp) (by simp) (by simpa using h.field "falseType"))
      | _ => simp at tags
    | inferred n c =>
      cases u with
      | inferred n' c' =>
        exact .inferred (by simpa using h.field "name")
          (part "constraint" (by simp) (by simp) (by simpa using h.field "constraint"))
      | _ => simp at tags
    | predicate n a c =>
      cases u with
      | predicate n' a' c' =>
        exact .predicate (by simpa using h.field "name") (by simpa using h.field "asserts")
          (part "targetType" (by simp) (by simp) (by simpa using h.field "targetType"))
      | _ => simp at tags
    | mapped p d b m =>
      cases u with
      | mapped p' d' b' m' =>
        exact .mapped (by simpa using h.field "parameter")
          (child "parameterType" (by simp) (by simp) (by simpa using h.field "parameterType"))
          (child "templateType" (by simp) (by simp) (by simpa using h.field "templateType"))
          (part "nameType" (by simp_all) (by simp_all) (by simpa using h.field "nameType"))
      | _ => simp at tags
    | union ts =>
      cases u with
      | union ts' =>
        have types : Value.Matches (.list (ts.map (toValue target declared)))
            (.list (ts'.map (toValue target declared))) := by simpa using h.field "types"
        exact .union (items types.items)
      | _ => simp at tags
    | intersection ts =>
      cases u with
      | intersection ts' =>
        have types : Value.Matches (.list (ts.map (toValue target declared)))
            (.list (ts'.map (toValue target declared))) := by simpa using h.field "types"
        exact .intersection (items types.items)
      | _ => simp at tags
    | tuple ts =>
      cases u with
      | tuple ts' =>
        have elements : Value.Matches (.list (ts.map (toValue target declared)))
            (.list (ts'.map (toValue target declared))) := by simpa using h.field "elements"
        exact .tuple (items elements.items)
      | _ => simp at tags
    | reference n l ts p =>
      cases u with
      | reference n' l' ts' p' =>
        rw [toValue_reference, toValue_reference] at h
        have name := h.field "name"
        have leads := h.field "target"
        have package := h.field "package"
        have args := h.field "typeArguments"
        simp at name leads package args
        exact .reference name (leads_of_matches leads) (items (items_of_rel args))
          (samePackage_of_rel (built.packages _ (mem_nested_self _) n l ts p rfl)
            (built'.packages _ (mem_nested_self _) n' l' ts' p' rfl) package)
      | _ => simp at tags
    | template head ps =>
      cases u with
      | template head' ps' =>
        rw [toValue_template, toValue_template] at h
        have head := h.field "head"
        have tail := h.field "tail"
        simp at head tail
        obtain ⟨types, texts⟩ := tail_of_items (items_of_rel tail)
        exact .template head (items types) texts
      | _ => simp at tags

end Ty

/-- The form of a type tells the type. Whatever the project looks like, types with equal forms have the same
structure, and their references have the same names, packages and arguments and lead to the same nodes. -/
theorem Store.same_of_matches (s : Store) {t u : Ty} (built : t.Built) (built' : u.Built)
    (h : (s.typeValue t).Matches (s.typeValue u)) : Ty.Same s.resolve s.nodeValue t u :=
  Ty.same_of_toValue built built' h

/-- A reference without a package, and one with an empty package and another link that leads nowhere. -/
theorem Store.same_of_matches_package :
    let t := Ty.array (.reference (.str "Foo") .external [] .null)
    let u := Ty.array (.reference (.str "Foo") (.loose 0) [] (.str ""))
    t ≠ u ∧ ((default : Store).typeValue t).Matches ((default : Store).typeValue u) ∧
      Ty.Same (default : Store).resolve (default : Store).nodeValue t u := by
  have built : ∀ link package, package = Value.null ∨ package = Value.str "" →
      (Ty.array (.reference (.str "Foo") link [] package)).Built := by
    intro link package text
    refine ⟨rfl, fun v mem name link' args package' eq => ?_⟩
    simp [Ty.nested, Ty.nestedAll] at mem
    rcases mem with rfl | rfl
    · cases eq
    · cases eq
      exact text.imp_right fun eq => ⟨"", eq⟩
  have same : ((default : Store).typeValue (.array (.reference (.str "Foo") .external [] .null))).Matches
      ((default : Store).typeValue (.array (.reference (.str "Foo") (.loose 0) [] (.str "")))) :=
    Value.Matches.refl _
  exact ⟨by simp, same, Store.same_of_matches default (built _ _ (.inl rfl)) (built _ _ (.inr rfl)) same⟩

end DocTree
