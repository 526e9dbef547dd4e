import DocTree.Output
import DocTree.Proofs.Store.Change

/-!
# Reading output back

Output is read with the names of the fields at hand, and without the tree it was made from.

* `readForm f v` : what `f` reads off the objects inside the form `v` of a node or a type;
* `Value.ids`, `Value.targets` : the numbers of the nodes written in a form, and what its references
  point at;
* `ids_toValue`, `targets_toValue` : what is read off the form of a type;
* `ids_nodeValueDepth`, `targets_nodeValueDepth` : what is read off the form of a node;
* `toValue_congr`, `nodeValueDepth_congr` : what the form of a type or a node depends on.
-/

namespace DocTree

/-! ## Reading -/

/-- The fields that hold data; all others hold forms of nodes and types. -/
def dataFields : List String :=
  ["id", "name", "variant", "kind", "value", "defaultValue", "isOptional", "isRest", "package", "parameter", "asserts",
    "operator", "head"]

section Reading

variable {β : Type} (f : List (String × Value) → List β)

mutual

/-- What is read off the objects inside a form, the outermost first. -/
def readForm : Value → List β
  | .object fields => f fields ++ readFields fields
  | .list forms => readForms forms
  | _ => []

def readFields : List (String × Value) → List β
  | [] => []
  | (key, v) :: rest =>
    (if dataFields.contains key then [] else if key = "tail" then readTail v else readForm v) ++ readFields rest

def readForms : List Value → List β
  | [] => []
  | v :: vs => readForm v ++ readForms vs

def readTail : Value → List β
  | .list pairs => readPairs pairs
  | _ => []

def readPairs : List Value → List β
  | [] => []
  | .list (form :: _) :: pairs => readForm form ++ readPairs pairs
  | _ :: pairs => readPairs pairs

end

end Reading

namespace Value

/-- The fields of an object. -/
def fields : Value → List (String × Value)
  | .object fields => fields
  | _ => []

theorem lookup_append (key : String) (fields fields' : List (String × Value)) :
    lookup key (fields ++ fields') = (lookup key fields).or (lookup key fields') := by
  induction fields with
  | nil => rfl
  | cons field fields ih =>
    rw [List.cons_append, lookup, lookup]
    split
    · rfl
    · exact ih

/-- The number of a node, if the fields are those of one. -/
def idOf (fields : List (String × Value)) : List Value :=
  if (lookup "variant" fields).isSome then (lookup "id" fields).toList else []

/-- What a reference points at, if the fields are those of one that points at anything. -/
def targetOf (fields : List (String × Value)) : List Value :=
  match lookup "type" fields, lookup "target" fields with
  | some (.str "reference"), some .null => []
  | some (.str "reference"), target => target.toList
  | _, _ => []

/-- The numbers of the nodes in a form, those of inline declarations included. -/
def ids (v : Value) : List Value := readForm idOf v

/-- What the references in a form point at. -/
def targets (v : Value) : List Value := readForm targetOf v

end Value

section Reading

variable {β : Type} {f : List (String × Value) → List β}

theorem readFields_append (fields fields' : List (String × Value)) :
    readFields f (fields ++ fields') = readFields f fields ++ readFields f fields' := by
  induction fields with
  | nil => rfl
  | cons field fields ih =>
    rw [List.cons_append, readFields, readFields, ih, List.append_assoc]

theorem readForms_eq (vs : List Value) : readForms f vs = vs.flatMap (readForm f) := by
  induction vs with
  | nil => rfl
  | cons v vs ih => rw [readForms, ih, List.flatMap_cons]

theorem readFields_data {key : String} (data : dataFields.contains key = true) (v : Value)
    (rest : List (String × Value)) : readFields f ((key, v) :: rest) = readFields f rest := by
  rw [readFields, if_pos data, List.nil_append]

theorem readFields_form {key : String} (form : dataFields.contains key = false) (other : key ≠ "tail") (v : Value)
    (rest : List (String × Value)) : readFields f ((key, v) :: rest) = readForm f v ++ readFields f rest := by
  rw [readFields, if_neg (by rw [form]; exact Bool.false_ne_true), if_neg other]

end Reading

/-! ## Types -/

namespace Ty

variable {β : Type} {f : List (String × Value) → List β} (target : Link → Option NodeId) (declared : NodeId → Value)

attribute [local simp] toValue

theorem length_nested_lt {t c : Ty} (mem : c ∈ t.children) : c.nested.length < t.nested.length := by
  obtain ⟨before, after, eq⟩ := List.append_of_mem mem
  rw [nested_eq t, eq, List.flatMap_append, List.flatMap_cons]
  simp only [List.length_cons, List.length_append]
  omega

theorem children_induction {P : Ty → Prop} (step : ∀ t, (∀ c ∈ t.children, P c) → P t) (t : Ty) : P t :=
  step t fun c mem =>
    have := length_nested_lt mem
    children_induction step c
termination_by t.nested.length

theorem mem_nested_self (t : Ty) : t ∈ t.nested := by
  rw [nested_eq]
  exact List.mem_cons_self

theorem mem_nested_of_children {t u c : Ty} (inside : u ∈ t.nested) (child : c ∈ u.children) : c ∈ t.nested := by
  induction t using children_induction with
  | step t ih =>
    rw [nested_eq] at inside ⊢
    rcases List.mem_cons.1 inside with rfl | deeper
    · exact List.mem_cons_of_mem _ (List.mem_flatMap.2 ⟨c, child, mem_nested_self c⟩)
    · obtain ⟨d, mem, here⟩ := List.mem_flatMap.1 deeper
      exact List.mem_cons_of_mem _ (List.mem_flatMap.2 ⟨d, mem, ih d mem here⟩)

theorem toValues_eq (ts : List Ty) : toValues target declared ts = ts.map (toValue target declared) := by
  induction ts with
  | nil => rfl
  | cons t ts ih => rw [toValues, ih, List.map_cons]

theorem toTail_eq (tail : List (Ty × Value)) :
    toTail target declared tail = tail.map fun p => .list [p.1.toValue target declared, p.2] := by
  induction tail with
  | nil => rfl
  | cons p tail ih => rw [toTail, ih, List.map_cons]

theorem readFields_present {key : String} (form : dataFields.contains key = false) (other : key ≠ "tail") (t : Ty) :
    readFields f (present key t (t.toValue target declared)) = readForm f (t.toValue target declared) := by
  unfold present
  split
  · rename_i absent
    cases t with
    | absent => rw [toValue]; rfl
    | _ => cases absent
  · rw [readFields_form form other, readFields, List.append_nil]

theorem lookup_present {key key' : String} (ne : key' ≠ key) (t : Ty) (form : Value) :
    Value.lookup key (present key' t form) = none := by
  unfold present
  split
  · rfl
  · rw [Value.lookup, if_neg ne, Value.lookup]

theorem readPairs_toTail (tail : List (Ty × Value)) :
    readPairs f (toTail target declared tail) =
      tail.flatMap fun p => readForm f (p.1.toValue target declared) := by
  induction tail with
  | nil => rfl
  | cons p tail ih => rw [toTail, readPairs, ih, List.flatMap_cons]

/-- What is read off the form of a type: what its own object says, and what is read off the forms inside. -/
theorem readForm_toValue {t : Ty} (there : t.isAbsent = false) : readForm f (t.toValue target declared) =
    f (t.toValue target declared).fields ++ (Node.ofType (some t)).flatMap (fun id => readForm f (declared id)) ++
      t.children.flatMap fun c => readForm f (c.toValue target declared) := by
  cases t with
  | absent => cases there
  | inferred _ c =>
    cases c <;> simp (disch := decide) [readForm, readFields, readFields_present, dataFields, Value.fields,
      children, Node.ofType, Node.ofType]
  | predicate _ _ c =>
    cases c <;> simp (disch := decide) [readForm, readFields, readFields_present, dataFields, Value.fields,
      children, Node.ofType, Node.ofType]
  | mapped _ _ _ c =>
    cases c <;> simp (disch := decide) [readForm, readFields, readFields_append, readFields_present, dataFields,
      Value.fields, children, Node.ofType]
  | reference _ link args package =>
    have skipped : readFields f (optionalField "package" (unlessEmpty package)) = [] := by
      cases unlessEmpty package <;> simp [optionalField, readFields, dataFields]
    have plain : readForm f (((target link).map fun id : NodeId => Value.int id).getD .null) = [] := by
      cases target link <;> rfl
    cases args <;> simp [readForm, readFields, readFields_append, skipped, plain, dataFields, Value.fields,
      children, Node.ofType, toValues_eq, readForms_eq, List.flatMap_map]
  | template head tail =>
    cases tail <;> simp [readForm, readFields, dataFields, Value.fields, children, Node.ofType, readTail,
      readPairs_toTail, List.flatMap_map]
  | _ =>
    simp (disch := decide) [readForm, readFields, readFields_append, readFields_present, dataFields,
      Value.fields, children, Node.ofType, toValues_eq, readForms_eq, List.flatMap_map]

theorem type_toValue {t : Ty} (there : t.isAbsent = false) :
    Value.lookup "type" (t.toValue target declared).fields = some (.str t.tag) := by
  cases t with
  | absent => cases there
  | inferred _ c => cases c <;> simp [Value.fields, Value.lookup, tag]
  | predicate _ _ c => cases c <;> simp [Value.fields, Value.lookup, tag]
  | mapped _ _ _ c => cases c <;> simp [Value.fields, Value.lookup, tag]
  | _ => simp [Value.fields, Value.lookup, tag]

theorem variant_toValue {t : Ty} : Value.lookup "variant" (t.toValue target declared).fields = none := by
  cases t with
  | inferred _ c => cases c <;> simp [Value.fields, Value.lookup, lookup_present]
  | predicate _ _ c => cases c <;> simp [Value.fields, Value.lookup, lookup_present]
  | mapped _ _ _ c => cases c <;> simp [Value.fields, Value.lookup, Value.lookup_append, lookup_present]
  | reference _ link args package =>
    have skipped : Value.lookup "variant" (optionalField "package" (unlessEmpty package)) = none := by
      cases unlessEmpty package <;> simp [optionalField, Value.lookup]
    cases args <;> simp [Value.fields, Value.lookup, Value.lookup_append, skipped]
  | template head tail => cases tail <;> simp [Value.fields, Value.lookup]
  | _ => simp [Value.fields, Value.lookup, Value.lookup_append, lookup_present]

/-- The numbers of nodes in the form of a type are those in the forms of its inline declarations. -/
theorem ids_toValue (t : Ty) :
    (t.toValue target declared).ids = t.inlines.flatMap fun id => (declared id).ids := by
  induction t using children_induction with
  | step t ih =>
    cases there : t.isAbsent with
    | true =>
      cases t with
      | absent => rw [toValue]; rfl
      | _ => cases there
    | false =>
      have own : Value.idOf (t.toValue target declared).fields = [] := by
        rw [Value.idOf, variant_toValue]
        rfl
      have inner : t.children.flatMap (fun c => (c.toValue target declared).ids) =
          (t.children.flatMap inlines).flatMap fun id => (declared id).ids := by
        rw [List.flatMap_assoc]
        exact List.flatMap_congr ih
      rw [Value.ids, readForm_toValue target declared there, own, inlines_eq, List.flatMap_append, ← inner]
      cases t <;> simp [Value.ids, Node.ofType]

/-- Only the object of a reference points at anything. -/
theorem targetOf_toValue {t : Ty} {v : Value} (mem : v ∈ Value.targetOf (t.toValue target declared).fields) :
    ∃ name link args package id, t = .reference name link args package ∧ target link = some id ∧ v = .int id := by
  cases there : t.isAbsent with
  | true =>
    cases t with
    | absent =>
      rw [toValue] at mem
      cases mem
    | _ => cases there
  | false =>
    unfold Value.targetOf at mem
    rw [type_toValue target declared there] at mem
    cases t with
    | reference name link args package =>
      simp only [toValue, Value.fields, tag] at mem
      have here : ∀ more, Value.lookup "target" ([("type", .str "reference"), ("name", name), ("target", more)]
          ++ optionalField "package" (unlessEmpty package)
          ++ (if args.isEmpty then [] else [("typeArguments", .list (toValues target declared args))])) = some more :=
        fun _ => rfl
      rw [here] at mem
      cases eq : target link with
      | none =>
        rw [eq] at mem
        cases mem
      | some id =>
        rw [eq] at mem
        exact ⟨name, link, args, package, id, rfl, eq, List.mem_singleton.1 mem⟩
    | _ => cases mem

theorem toValue_ne_str (t : Ty) (text : String) : t.toValue target declared ≠ .str text := by
  cases t with
  | inferred _ c => cases c <;> simp
  | predicate _ _ c => cases c <;> simp
  | mapped _ _ _ c => cases c <;> simp
  | _ => simp

/-- References in the form of a type point where the links of the type lead, or are in the form of an inline
declaration. -/
theorem targets_toValue (t : Ty) {v : Value} (mem : v ∈ (t.toValue target declared).targets) :
    (∃ link ∈ t.links, ∃ id, target link = some id ∧ v = .int id) ∨
      ∃ id ∈ t.inlines, v ∈ (declared id).targets := by
  induction t using children_induction with
  | step t ih =>
    cases there : t.isAbsent with
    | true =>
      cases t with
      | absent =>
        rw [toValue] at mem
        cases mem
      | _ => cases there
    | false =>
      rw [Value.targets, readForm_toValue target declared there, List.mem_append, List.mem_append] at mem
      rw [links_eq, inlines_eq]
      rcases mem with (own | inline) | inner
      · obtain ⟨name, link, args, package, id, rfl, eq, same⟩ := targetOf_toValue target declared own
        exact Or.inl ⟨link, List.mem_append_left _ (List.mem_singleton_self _), id, eq, same⟩
      · cases t with
        | inline id =>
          refine Or.inr ⟨id, List.mem_append_left _ (List.mem_singleton_self _), ?_⟩
          rwa [Node.ofType, List.flatMap_singleton] at inline
        | _ => cases inline
      · obtain ⟨c, child, here⟩ := List.mem_flatMap.1 inner
        rcases ih c child here with ⟨link, leads, found⟩ | ⟨id, inside, here⟩
        · exact Or.inl ⟨link, List.mem_append_right _ (List.mem_flatMap.2 ⟨c, child, leads⟩), found⟩
        · exact Or.inr ⟨id, List.mem_append_right _ (List.mem_flatMap.2 ⟨c, child, inside⟩), here⟩

/-- Inline declarations that are written in the same way leave the form of a type as it is. -/
theorem toValue_congr {declared' : NodeId → Value} (t : Ty) (same : ∀ id ∈ t.inlines, declared' id = declared id) :
    t.toValue target declared' = t.toValue target declared := by
  induction t using children_induction with
  | step t ih =>
    rw [inlines_eq] at same
    have inner : ∀ c ∈ t.children, c.toValue target declared' = c.toValue target declared := fun c mem =>
      ih c mem fun id inside => same id (List.mem_append_right _ (List.mem_flatMap.2 ⟨c, mem, inside⟩))
    cases t with
    | inline id => simp [same id (List.mem_append_left _ (List.mem_singleton_self id))]
    | inferred _ c => cases c <;> simp_all [children]
    | predicate _ _ c => cases c <;> simp_all [children]
    | mapped _ _ _ c => cases c <;> simp_all [children]
    | reference _ _ args _ =>
      rw [toValue, toValue, toValues_eq, toValues_eq, List.map_congr_left (l := args) inner]
    | template head tail =>
      rw [toValue, toValue, toTail_eq, toTail_eq]
      have tails : ∀ p ∈ tail, Value.list [p.1.toValue target declared', p.2] =
          .list [p.1.toValue target declared, p.2] := fun p mem => by rw [inner p.1 (List.mem_map_of_mem mem)]
      rw [List.map_congr_left tails]
    | _ => simp_all [children, toValues_eq]

end Ty

/-! ## Nodes -/

namespace Store

open Ty (optionalField unlessEmpty)

/-- The nodes that are written inside a node. -/
def written (s : Store) (id : NodeId) : List NodeId :=
  writtenNodes (s.node id).body ++ (writtenTypes (s.node id).body).flatMap Ty.inlines ++ s.shownChildren id

variable {β : Type} {f : List (String × Value) → List β} (s : Store)

theorem readFields_listField {key : String} (form : dataFields.contains key = false) (other : key ≠ "tail")
    (items : List Value) : readFields f (listField key items) = items.flatMap (readForm f) := by
  unfold listField
  split
  · rename_i none
    rw [List.isEmpty_iff.1 none]
    rfl
  · rw [readFields_form form other, readForm, readForms_eq, readFields, List.append_nil]

theorem readFields_optionalField {key : String} (form : dataFields.contains key = false) (other : key ≠ "tail")
    (v : Option Value) : readFields f (optionalField key v) = v.toList.flatMap (readForm f) := by
  cases v with
  | none => rfl
  | some v => exact readFields_form form other v []

theorem readFields_optionalData {key : String} (data : dataFields.contains key = true) (v : Option Value) :
    readFields f (optionalField key v) = [] := by
  cases v with
  | none => rfl
  | some v => exact readFields_data data v []

/-- The fields of a body depend on the forms of what is written inside only. -/
theorem bodyFields_congr {type type' : Ty → Value} {node node' : NodeId → Value} {b : Body}
    (types : ∀ t ∈ writtenTypes b, type' t = type t) (nodes : ∀ c ∈ writtenNodes b, node' c = node c) :
    bodyFields type' node' b = bodyFields type node b := by
  have listed : ∀ {ids : List NodeId}, (∀ c ∈ ids, node' c = node c) → ids.map node' = ids.map node :=
    List.map_congr_left
  have listed' : ∀ {ts : List Ty}, (∀ t ∈ ts, type' t = type t) → ts.map type' = ts.map type := List.map_congr_left
  have maybe : ∀ {o : Option Ty}, (∀ t ∈ o.toList, type' t = type t) → o.map type' = o.map type := by
    intro o same
    cases o with
    | none => rfl
    | some t => exact congrArg some (same t (List.mem_singleton_self t))
  cases b with
  | bare => rfl
  | project _ => rfl
  | declaration b =>
    simp only [writtenTypes, writtenNodes, List.forall_mem_append] at types nodes
    obtain ⟨⟨type, extended⟩, implemented⟩ := types
    obtain ⟨⟨⟨⟨parameters, signatures⟩, indexes⟩, getter⟩, setter⟩ := nodes
    simp only [bodyFields, maybe type, listed' extended, listed' implemented, listed parameters, listed signatures,
      listed indexes, listed getter, listed setter]
  | signature b =>
    simp only [writtenNodes, List.forall_mem_append] at nodes
    simp only [bodyFields, maybe types, listed nodes.1, listed nodes.2]
  | parameter b => simp only [bodyFields, maybe types]
  | typeParameter b =>
    simp only [writtenTypes, List.forall_mem_append] at types
    simp only [bodyFields, maybe types.1, maybe types.2]

theorem readFields_bodyFields (type : Ty → Value) (node : NodeId → Value) (b : Body) :
    (readFields f (bodyFields type node b)).Perm
      ((writtenNodes b).flatMap (fun id => readForm f (node id)) ++
        (writtenTypes b).flatMap fun t => readForm f (type t)) := by
  classical
  refine List.perm_iff_count.2 fun x => ?_
  cases b <;>
    simp (disch := decide) only [bodyFields, writtenNodes, writtenTypes, readFields_append, readFields_listField,
      readFields_optionalField, readFields_optionalData, readFields, Option.toList_map, List.flatMap_append,
      List.flatMap_map, List.flatMap_nil, List.count_append, List.count_nil]
  all_goals omega

theorem lookup_listField {key key' : String} (ne : key' ≠ key) (items : List Value) :
    Value.lookup key (listField key' items) = none := by
  unfold listField
  split
  · rfl
  · rw [Value.lookup, if_neg ne, Value.lookup]

theorem lookup_optionalField {key key' : String} (ne : key' ≠ key) (v : Option Value) :
    Value.lookup key (optionalField key' v) = none := by
  cases v with
  | none => rfl
  | some v => exact (if_neg ne).trans rfl

theorem lookup_optionalField_self (key : String) (v : Option Value) : Value.lookup key (optionalField key v) = v := by
  cases v with
  | none => rfl
  | some v => exact if_pos rfl

/-- What a body writes as its type is the form of a type. -/
theorem lookup_type_bodyFields (type : Ty → Value) (node : NodeId → Value) (b : Body) :
    ∃ t : Option Ty, Value.lookup "type" (bodyFields type node b) = t.map type := by
  cases b with
  | bare => exact ⟨none, rfl⟩
  | project _ => exact ⟨none, rfl⟩
  | declaration b =>
    refine ⟨b.type, ?_⟩
    simp (disch := decide) only [bodyFields, Value.lookup_append, lookup_optionalField_self, lookup_optionalField,
      lookup_listField, Option.or_none]
  | signature b =>
    refine ⟨b.type, ?_⟩
    simp (disch := decide) only [bodyFields, Value.lookup_append, lookup_optionalField_self, lookup_listField,
      Option.none_or]
  | parameter b =>
    refine ⟨b.type, ?_⟩
    simp (disch := decide) only [bodyFields, Value.lookup_append, lookup_optionalField_self, lookup_optionalField,
      Option.or_none]
  | typeParameter b =>
    refine ⟨b.constraint, ?_⟩
    simp (disch := decide) only [bodyFields, Value.lookup_append, lookup_optionalField_self, lookup_optionalField,
      Option.or_none]

theorem idOf_node (id : NodeId) (more : List (String × Value)) : Value.idOf (s.headFields id ++ more) = [.int id] := by
  unfold Value.idOf
  rw [show Value.lookup "variant" (s.headFields id ++ more) = some (s.variant id) from rfl,
    show Value.lookup "id" (s.headFields id ++ more) = some (.int id) from rfl]
  rfl

theorem type_node (id : NodeId) (form : NodeId → Value) (shown : List Value) :
    Value.lookup "type" (s.headFields id ++ bodyFields (Ty.toValue s.resolve form) form (s.node id).body
      ++ listField "children" shown) ≠ some (.str "reference") := by
  obtain ⟨t, eq⟩ := lookup_type_bodyFields (Ty.toValue s.resolve form) form (s.node id).body
  rw [Value.lookup_append, Value.lookup_append, show Value.lookup "type" (s.headFields id) = none from rfl, eq,
    lookup_listField (by decide), Option.none_or, Option.or_none]
  intro same
  obtain ⟨t, _, here⟩ := Option.map_eq_some_iff.1 same
  exact Ty.toValue_ne_str s.resolve form t "reference" here

theorem targetOf_node (id : NodeId) (form : NodeId → Value) (shown : List Value) :
    Value.targetOf (s.headFields id ++ bodyFields (Ty.toValue s.resolve form) form (s.node id).body
      ++ listField "children" shown) = [] := by
  have other := s.type_node id form shown
  unfold Value.targetOf
  split
  · rename_i same _
    exact absurd same other
  · rename_i same _
    exact absurd same other
  · rfl

theorem readForm_node (form : NodeId → Value) (id : NodeId) :
    (readFields f (s.headFields id ++ bodyFields (Ty.toValue s.resolve form) form (s.node id).body
      ++ listField "children" ((s.shownChildren id).map form))).Perm
      ((writtenNodes (s.node id).body).flatMap (fun c => readForm f (form c)) ++
        (writtenTypes (s.node id).body).flatMap (fun t => readForm f (t.toValue s.resolve form)) ++
        (s.shownChildren id).flatMap fun c => readForm f (form c)) := by
  have head : readFields f (s.headFields id) = [] := by
    simp [headFields, readFields, dataFields]
  rw [readFields_append, readFields_append, head, List.nil_append, readFields_listField (by decide) (by decide),
    List.flatMap_map]
  exact (readFields_bodyFields ..).append_right _

theorem ids_nodeValueDepth (depth : Nat) (id : NodeId) : (s.nodeValueDepth (depth + 1) id).ids.Perm
    (.int id :: (s.written id).flatMap fun c => (s.nodeValueDepth depth c).ids) := by
  rw [nodeValueDepth, Value.ids, readForm, List.append_assoc, idOf_node, ← List.append_assoc]
  refine ((readForm_node s (s.nodeValueDepth depth) id).cons (Value.int id)).trans (.of_eq ?_)
  have types := List.flatMap_congr (l := writtenTypes (s.node id).body) fun t _ =>
    Ty.ids_toValue s.resolve (s.nodeValueDepth depth) t
  unfold Value.ids at types
  rw [types, written, List.flatMap_append, List.flatMap_append, List.flatMap_assoc]
  rfl

/-- References in the form of a node are in its types and point where these lead, or are in the forms of what is
written inside. -/
theorem targets_nodeValueDepth {depth : Nat} {id : NodeId} {v : Value}
    (mem : v ∈ (s.nodeValueDepth (depth + 1) id).targets) :
    (∃ t ∈ writtenTypes (s.node id).body, ∃ link ∈ t.links, ∃ target, s.resolve link = some target ∧ v = .int target) ∨
      ∃ c ∈ s.written id, v ∈ (s.nodeValueDepth depth c).targets := by
  rw [nodeValueDepth, Value.targets, readForm, targetOf_node, List.nil_append,
    (readForm_node s (s.nodeValueDepth depth) id).mem_iff, List.mem_append, List.mem_append] at mem
  rcases mem with (node | type) | child
  · obtain ⟨c, held, here⟩ := List.mem_flatMap.1 node
    exact Or.inr ⟨c, List.mem_append_left _ (List.mem_append_left _ held), here⟩
  · obtain ⟨t, held, here⟩ := List.mem_flatMap.1 type
    rcases Ty.targets_toValue _ _ t here with found | ⟨c, inside, here⟩
    · exact Or.inl ⟨t, held, found⟩
    · refine Or.inr ⟨c, List.mem_append_left _ (List.mem_append_right _ ?_), here⟩
      exact List.mem_flatMap.2 ⟨t, held, inside⟩
  · obtain ⟨c, held, here⟩ := List.mem_flatMap.1 child
    exact Or.inr ⟨c, List.mem_append_right _ held, here⟩

theorem nodeValueDepth_congr {depth depth' : Nat} {id : NodeId}
    (same : ∀ c ∈ s.written id, s.nodeValueDepth depth' c = s.nodeValueDepth depth c) :
    s.nodeValueDepth (depth' + 1) id = s.nodeValueDepth (depth + 1) id := by
  simp only [written, List.forall_mem_append, List.mem_flatMap] at same
  obtain ⟨⟨nodes, types⟩, shown⟩ := same
  rw [nodeValueDepth, nodeValueDepth, List.map_congr_left shown, bodyFields_congr (fun t mem => ?_) nodes]
  exact Ty.toValue_congr _ _ t fun c inside => types c ⟨t, mem, inside⟩

end Store

end DocTree
