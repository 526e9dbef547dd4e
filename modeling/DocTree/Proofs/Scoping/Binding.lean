import DocTree.Proofs.Faithful.Types

/-!
# Names in types

* `Binds project program hidden name link` : where a name leads that is read where some type parameters are in sight;
* `Spells s R e t` : the type `t` says what the expression `e` writes, and each name in it leads where `R` allows;
* `build_spells` : building a type spells its expression, and binds each name where it stands;
* `Bound v scope text t` : the type `t` was read from a text.
-/

namespace DocTree

namespace Document

open TypeExpr

/-- Where a name leads. It leads to the symbol of the program that is called exactly so, if there is one and the
first part of the name is not that of a type parameter in sight, and is left outside otherwise. -/
structure Binds (project : NodeId) (program : Program) (hidden : List String) (name : String) (link : Link) : Prop where
  symbol : ∀ X, program.symbols.find? (.text name) = some X → Scope.headOf name ∉ hidden → link = .symbol project X
  outside : program.symbols.find? (.text name) = none ∨ Scope.headOf name ∈ hidden → link = .external

/-- A type that says what an expression writes. Each name that is referred to or queried leads where `R` allows; only a
name that is built in and has no arguments leads nowhere. -/
inductive Spells (s : Store) (R : String → Link → Prop) : Expr → Ty → Prop
  | intrinsic {path : String} (builtin : path ∈ intrinsicNames) : Spells s R (.name path []) (.intrinsic (.str path))
  | name {path : String} {link : Link} {args : List Expr} {ts : List Ty} (other : args = [] → path ∉ intrinsicNames)
      (leads : R path link) (inside : List.Forall₂ (Spells s R) args ts) :
      Spells s R (.name path args) (.reference (.str path) link ts .null)
  | literal (value : Value) : Spells s R (.literal value) (.literal value)
  | query {path : String} {link : Link} (leads : R path link) :
      Spells s R (.query path) (.query (.reference (.str path) link [] .null))
  | operator {word : String} {e : Expr} {t : Ty} (inside : Spells s R e t) :
      Spells s R (.operator word e) (.operator (.str word) t)
  | array {e : Expr} {t : Ty} (inside : Spells s R e t) : Spells s R (.array e) (.array t)
  | union {es : List Expr} {ts : List Ty} (inside : List.Forall₂ (Spells s R) es ts) :
      Spells s R (.union es) (.union ts)
  | intersection {es : List Expr} {ts : List Ty} (inside : List.Forall₂ (Spells s R) es ts) :
      Spells s R (.intersection es) (.intersection ts)
  | tuple {es : List Expr} {ts : List Ty} (inside : List.Forall₂ (Spells s R) es ts) :
      Spells s R (.tuple es) (.tuple ts)
  | object {es : List (String × Expr)} {ms : List (String × Ty)} {id : NodeId} (holds : s.Holds id (objectNodes id ms))
      (names : ms.map Prod.fst = es.map Prod.fst)
      (inside : List.Forall₂ (Spells s R) (es.map Prod.snd) (ms.map Prod.snd)) : Spells s R (.object es) (.inline id)
  | function {es : List ((String × Marks) × Expr)} {ps : List ((String × Marks) × Ty)} {e : Expr} {t : Ty} {id : NodeId}
      (holds : s.Holds id (functionNodes id ps t)) (names : ps.map Prod.fst = es.map Prod.fst)
      (inside : List.Forall₂ (Spells s R) (es.map Prod.snd) (ps.map Prod.snd)) (result : Spells s R e t) :
      Spells s R (.function es e) (.inline id)

variable {v w : Workspace} {scope : Scope}

def Scope.Allows (scope : Scope) : String → Link → Prop := Binds scope.project scope.program scope.hidden

theorem Scope.allows_link (scope : Scope) (name : String) : scope.Allows name (scope.link name) := by
  constructor
  · intro X found clear
    rw [link, if_neg (by simpa using clear), found]
  · intro none
    unfold link
    split
    · rfl
    · rename_i clear
      rw [none.resolve_right fun hidden => clear (by simpa using hidden)]

theorem Scope.hide_hide (scope : Scope) (names more : List String) :
    (scope.hide names).hide more = scope.hide (more ++ names) := by
  rw [hide, hide, hide, List.append_assoc]

mutual

/-- A type spells its expression, and each name in it is bound in the scope where it stands. -/
theorem build_spells (scope : Scope) (e : Expr) (w : Workspace) :
    Says v (build scope.builder e) w fun t => Spells v.store scope.Allows e t := by
  match e with
  | .name path args =>
    unfold build
    refine (buildAll_spells scope args w).bind fun ts w₁ _ _ => ?_
    split
    · rename_i builtin
      rw [Bool.and_eq_true, List.isEmpty_iff, List.contains_iff_mem] at builtin
      refine says_pure fun inside => ?_
      rw [builtin.1] at inside
      cases inside
      exact .intrinsic builtin.2
    · rename_i other
      rw [Bool.and_eq_true, List.isEmpty_iff, List.contains_iff_mem] at other
      refine says_pure fun inside => .name (fun none => ?_) (scope.allows_link path) inside
      subst none
      cases inside
      exact fun builtin => other ⟨rfl, builtin⟩
  | .literal value =>
    unfold build
    exact says_pure (.literal value)
  | .longNumber =>
    unfold build
    exact says_throw
  | .query path =>
    unfold build
    refine Says.bind (R := (· = .reference (.str path) (scope.link path) [] .null)) (says_pure rfl) fun t w₁ _ _ => ?_
    exact says_pure fun made => made ▸ .query (scope.allows_link path)
  | .operator word target =>
    unfold build
    exact (build_spells scope target w).bind fun t w₁ _ _ => says_pure .operator
  | .array element =>
    unfold build
    exact (build_spells scope element w).bind fun t w₁ _ _ => says_pure .array
  | .union parts =>
    unfold build
    exact (buildAll_spells scope parts w).bind fun ts w₁ _ _ => says_pure .union
  | .intersection parts =>
    unfold build
    exact (buildAll_spells scope parts w).bind fun ts w₁ _ _ => says_pure .intersection
  | .tuple elements =>
    unfold build
    exact (buildAll_spells scope elements w).bind fun ts w₁ _ _ => says_pure .tuple
  | .object members =>
    unfold build
    refine (buildMembers_spells scope members w).bind fun ms w₁ _ _ => ?_
    exact says_add fun id holds inside => .object holds inside.1 inside.2
  | .function parameters result =>
    unfold build
    refine (buildParameters_spells scope parameters w).bind fun ps w₁ _ _ => ?_
    refine (build_spells scope result w₁).bind fun t w₂ _ _ => ?_
    exact says_add fun id holds last inside => .function holds inside.1 inside.2 last

theorem buildAll_spells (scope : Scope) (es : List Expr) (w : Workspace) :
    Says v (buildAll scope.builder es) w fun ts => List.Forall₂ (Spells v.store scope.Allows) es ts := by
  match es with
  | [] =>
    unfold buildAll
    exact says_pure .nil
  | e :: es =>
    unfold buildAll
    refine (build_spells scope e w).bind fun t w₁ _ _ => (buildAll_spells scope es w₁).bind fun ts w₂ _ _ => ?_
    exact says_pure fun rest first => .cons first rest

theorem buildMembers_spells (scope : Scope) (members : List (String × Expr)) (w : Workspace) :
    Says v (buildMembers scope.builder members) w fun ms => ms.map Prod.fst = members.map Prod.fst ∧
      List.Forall₂ (Spells v.store scope.Allows) (members.map Prod.snd) (ms.map Prod.snd) := by
  match members with
  | [] =>
    unfold buildMembers
    exact says_pure ⟨rfl, .nil⟩
  | (name, e) :: members =>
    unfold buildMembers
    refine (build_spells scope e w).bind fun t w₁ _ _ => (buildMembers_spells scope members w₁).bind fun ms w₂ _ _ => ?_
    exact says_pure fun rest first => ⟨congrArg (name :: ·) rest.1, .cons first rest.2⟩

theorem buildParameters_spells (scope : Scope) (parameters : List ((String × Marks) × Expr)) (w : Workspace) :
    Says v (buildParameters scope.builder parameters) w fun ps => ps.map Prod.fst = parameters.map Prod.fst ∧
      List.Forall₂ (Spells v.store scope.Allows) (parameters.map Prod.snd) (ps.map Prod.snd) := by
  match parameters with
  | [] =>
    unfold buildParameters
    exact says_pure ⟨rfl, .nil⟩
  | (name, e) :: parameters =>
    unfold buildParameters
    refine (build_spells scope e w).bind fun t w₁ _ _ =>
      (buildParameters_spells scope parameters w₁).bind fun ps w₂ _ _ => ?_
    exact says_pure fun rest first => ⟨congrArg (name :: ·) rest.1, .cons first rest.2⟩

end

/-- A type that was read from a text: it spells what the text writes. -/
def Bound (v : Workspace) (scope : Scope) (text : String) (t : Ty) : Prop :=
  ∃ e, parse text = .ok e ∧ Spells v.store scope.Allows e t

end Document

end DocTree
