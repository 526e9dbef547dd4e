import DocTree.Proofs.Renumber.Search
import DocTree.Proofs.Store.Lookup
import DocTree.Proofs.Store.Tree

/-!
# Names down a tree, and lookup up a tree

* `Ascends s id line` : a node, its parent, and so on up to a project, or to a node without a parent;
  `Ascends.length_le` : no way up is longer than there are nodes;
* `seek_line` : lookup from a node gives what the first node on the way up has at the path that has something there;
  in a project the modules come last;
* `Singled s top names id` : a node is reached by names that no earlier sibling on the way bears, with no dot in them;
  `fullName_singled`, `seek_singled` : these make up its full name, and the full name leads back to it.
-/

namespace DocTree

namespace Text

theorem cut_append {separator : Char} {part : List Char} (free : separator ∉ part) (cs : List Char) :
    cut separator (part ++ separator :: cs) = part :: cut separator cs := by
  induction part with
  | nil => rw [List.nil_append, cut, if_pos rfl]
  | cons c part ih =>
    obtain ⟨other, free⟩ := List.ne_and_not_mem_of_not_mem_cons free
    rw [List.cons_append, cut, if_neg fun same => other same.symm, ih free]

theorem cut_of_not_mem {separator : Char} {part : List Char} (free : separator ∉ part) :
    cut separator part = [part] := by
  induction part with
  | nil => rfl
  | cons c part ih =>
    obtain ⟨other, free⟩ := List.ne_and_not_mem_of_not_mem_cons free
    rw [cut, if_neg fun same => other same.symm, ih free]

/-- Parts without separators are what is cut out of the text made up of them. -/
theorem parts_intercalate {names : List String} (some : names ≠ []) (free : ∀ n ∈ names, '.' ∉ n.toList) :
    parts '.' (".".intercalate names) = names := by
  have cuts : ∀ {names : List String}, names ≠ [] → (∀ n ∈ names, '.' ∉ n.toList) →
      cut '.' (['.'].intercalate (names.map String.toList)) = names.map String.toList := by
    intro names some free
    induction names with
    | nil => exact absurd rfl some
    | cons n names ih =>
      obtain ⟨here, later⟩ := List.forall_mem_cons.1 free
      cases names with
      | nil => simpa using cut_of_not_mem here
      | cons n' names =>
        rw [List.map_cons, List.map_cons, List.intercalate_cons_cons, List.append_assoc, List.singleton_append,
          cut_append here, ← List.map_cons, ih (List.cons_ne_nil _ _) later]
  have own : (String.ofList ∘ String.toList) = id := funext fun _ => String.ofList_toList
  unfold parts
  rw [String.toList_intercalate]
  refine (congrArg _ (cuts some free)).trans ?_
  rw [List.map_map, own, List.map_id]

end Text

namespace Store

variable {s : Store} {id : NodeId} {line line' : List NodeId}

/-! ## The way up -/

/-- A node, its parent, and so on up to a project, or to a node without a parent. -/
inductive Ascends (s : Store) : NodeId → List NodeId → Prop
  | project {id : NodeId} : s.isProject id = true → Ascends s id [id]
  | loose {id : NodeId} : s.isProject id = false → (s.node id).parent = none → Ascends s id [id]
  | step {id parent : NodeId} {line : List NodeId} : s.isProject id = false → (s.node id).parent = some parent →
    Ascends s parent line → Ascends s id (id :: line)

namespace Ascends

/-- There is one way up. -/
theorem unique (h : s.Ascends id line) (h' : s.Ascends id line') : line = line' := by
  induction h generalizing line' with
  | project top =>
    cases h' with
    | project _ => rfl
    | loose other _ => exact absurd (other.symm.trans top) Bool.false_ne_true
    | step other _ _ => exact absurd (other.symm.trans top) Bool.false_ne_true
  | loose other none =>
    cases h' with
    | project top => exact absurd (other.symm.trans top) Bool.false_ne_true
    | loose _ _ => rfl
    | step _ some _ => exact absurd (some.symm.trans none) (Option.some_ne_none _)
  | step other some _ ih =>
    cases h' with
    | project top => exact absurd (other.symm.trans top) Bool.false_ne_true
    | loose _ none => exact absurd (some.symm.trans none) (Option.some_ne_none _)
    | step _ some' rest =>
      obtain rfl := Option.some.inj (some.symm.trans some')
      rw [ih rest]

theorem of_mem (h : s.Ascends id line) {x : NodeId} (mem : x ∈ line) :
    ∃ part, s.Ascends x part ∧ part.length ≤ line.length := by
  induction h with
  | project top =>
    obtain rfl := List.mem_singleton.1 mem
    exact ⟨_, .project top, Nat.le_refl _⟩
  | loose other none =>
    obtain rfl := List.mem_singleton.1 mem
    exact ⟨_, .loose other none, Nat.le_refl _⟩
  | step other some rest ih =>
    rcases List.mem_cons.1 mem with rfl | mem
    · exact ⟨_, .step other some rest, Nat.le_refl _⟩
    · obtain ⟨part, way, le⟩ := ih mem
      exact ⟨part, way, Nat.le_succ_of_le le⟩

/-- No node is met twice on the way. -/
theorem nodup (h : s.Ascends id line) : line.Nodup := by
  induction h with
  | project _ => exact List.nodup_singleton _
  | loose _ _ => exact List.nodup_singleton _
  | @step id parent line other some rest ih =>
    refine List.nodup_cons.2 ⟨fun mem => ?_, ih⟩
    obtain ⟨part, way, le⟩ := rest.of_mem mem
    rw [way.unique (.step other some rest), List.length_cons] at le
    exact Nat.lt_irrefl _ le

theorem ne_nil (h : s.Ascends id line) : line ≠ [] := by
  cases h <;> exact List.cons_ne_nil _ _

/-- No way up is longer than there are nodes, but that it may end at a number that is none. -/
theorem length_le (h : s.Ascends id line) : line.length ≤ s.nodes.size + 1 := by
  have inside : ∀ x ∈ line.dropLast, x < s.nodes.size := by
    induction h with
    | project _ => exact nofun
    | loose _ _ => exact nofun
    | @step id parent line _ some rest ih =>
      rw [List.dropLast_cons_of_ne_nil rest.ne_nil]
      refine List.forall_mem_cons.2 ⟨?_, ih⟩
      by_contra outside
      rw [node_of_size_le (Nat.le_of_not_lt outside)] at some
      cases some
  have short : line.dropLast.length ≤ (List.range s.nodes.size).length :=
    (h.nodup.sublist (List.dropLast_sublist _)).length_le_of_subset fun x mem => List.mem_range.2 (inside x mem)
  rw [List.length_dropLast, List.length_range] at short
  omega

end Ascends

/-! ## Lookup -/

/-- What the modules of the project on top of the way have at a path; nothing if there is no project on top. -/
def inModules (s : Store) (path : NamePath) (line : List NodeId) : Option NodeId :=
  line.getLast?.bind fun top =>
    if s.isProject top then (s.childrenOfKind top .module).findSome? (s.childAt path) else none

theorem body_of_isProject (h : s.isProject id = true) : ∃ children, (s.node id).body = .project children := by
  unfold isProject at h
  split at h
  · exact ⟨_, ‹_›⟩
  · cases h

theorem ne_project (h : s.isProject id = false) (children : List NodeId) : (s.node id).body ≠ .project children := by
  intro body
  rw [isProject, body] at h
  cases h

/-- On the way up, the first node wins that has something at the path; in a project the modules come last. -/
theorem findUp_line (h : s.Ascends id line) (path : NamePath) {height : Nat} (le : line.length ≤ height) :
    s.findUp path height id = (line.findSome? (s.childAt path)).or (s.inModules path line) := by
  induction h generalizing height with
  | project top =>
    obtain ⟨height, rfl⟩ := Nat.exists_eq_add_one_of_ne_zero (Nat.ne_of_gt le)
    obtain ⟨children, body⟩ := body_of_isProject top
    unfold findUp
    simp [body, findInProject, inModules, top]
  | @loose id other none =>
    obtain ⟨height, rfl⟩ := Nat.exists_eq_add_one_of_ne_zero (Nat.ne_of_gt le)
    have here : s.findUp path (height + 1) id = s.childAt path id := by
      unfold findUp
      split
      · exact absurd ‹_› (ne_project other _)
      · rfl
      · rename_i some _
        cases none.symm.trans some
    simp [here, inModules, other]
  | @step id parent line other some rest ih =>
    obtain ⟨height, rfl⟩ := Nat.exists_eq_add_one_of_ne_zero (Nat.ne_of_gt (Nat.zero_lt_of_lt le))
    have here : s.findUp path (height + 1) id = (s.childAt path id).or (s.findUp path height parent) := by
      conv_lhs => unfold findUp
      split
      · exact absurd ‹_› (ne_project other _)
      · rename_i none _
        cases some.symm.trans none
      · rename_i some' _
        obtain rfl := Option.some.inj (some.symm.trans some')
        rfl
    have above := ih (Nat.le_of_succ_le_succ le)
    have modules : s.inModules path (id :: line) = s.inModules path line := by
      unfold inModules
      rw [List.getLast?_cons_of_ne_nil rest.ne_nil]
    rw [here, above, modules, List.findSome?_cons]
    cases s.childAt path id <;> rfl

theorem checkUp_of_empty (strays : s.strays = .empty) (path : NamePath) (height : Nat) (id : NodeId) :
    s.checkUp path height id = .ok () := by
  induction height generalizing id with
  | zero => rfl
  | succ height ih =>
    unfold checkUp
    split
    · rfl
    · split
      · rw [haveFlags_of_empty strays, Bool.or_true, if_pos rfl]
      · rw [strays, Strays.hasParent_empty]
        rfl
      · exact ih _

/-- Lookup goes up. It gives what the nearest node on the way up has at the path that has something there. -/
theorem seek_line (strays : s.strays = .empty) (h : s.Ascends id line) (path : NamePath) :
    s.seek id path = .ok ((line.findSome? (s.childAt path)).or (s.inModules path line)) := by
  unfold seek find
  rw [checkUp_of_empty strays, findUp_line h path h.length_le]
  rfl

/-! ## Full names -/

/-- A node is reached from another one by names without dots, none of which an earlier sibling bears. -/
inductive Singled (s : Store) (top : NodeId) : List String → NodeId → Prop
  | start : Singled s top [] top
  | child {names : List String} {parent id : NodeId} {before after : List NodeId} {name : String} :
    Singled s top names parent → s.children parent = before ++ id :: after → (s.node id).name = .str name →
    '.' ∉ name.toList → (∀ other ∈ before, (s.node other).name ≠ .str name) → Singled s top (names ++ [name]) id

variable {top : NodeId} {names : List String}

theorem Singled.free (h : s.Singled top names id) : ∀ name ∈ names, '.' ∉ name.toList := by
  induction h with
  | start => exact nofun
  | child _ _ _ free _ ih =>
    intro name mem
    rcases List.mem_append.1 mem with mem | mem
    · exact ih name mem
    · exact List.mem_singleton.1 mem ▸ free

theorem Singled.eq_top (h : s.Singled top names id) (none : names = []) : id = top := by
  cases h with
  | start => rfl
  | child => exact absurd none (List.append_ne_nil_of_right_ne_nil _ (List.cons_ne_nil _ _))

theorem childNamed_of_first {parent : NodeId} {before after : List NodeId} {name : String}
    (children : s.children parent = before ++ id :: after) (here : (s.node id).name = .str name)
    (first : ∀ other ∈ before, (s.node other).name ≠ .str name) : s.childNamed parent (.str name) = some id := by
  unfold childNamed
  rw [children, List.find?_append]
  have none : before.find? (fun c => (s.node c).name.same (.str name)) = none :=
    List.find?_eq_none.2 fun other mem same => first other mem (Value.same_str_right.1 same)
  rw [none, Option.none_or]
  exact List.find?_cons_of_pos (Value.same_str_right.2 here)

theorem childAt_append {path : List Value} (some : path ≠ []) (name : Value) (id : NodeId) :
    s.childAt (path ++ [name]) id = (s.childAt path id).bind fun c => s.childNamed c name := by
  induction path generalizing id with
  | nil => exact absurd rfl some
  | cons n path ih =>
    cases path with
    | nil => rfl
    | cons n' path =>
      show (s.childNamed id n).bind (s.childAt (n' :: path ++ [name])) = _
      rw [childAt, Option.bind_assoc]
      exact Option.bind_congr fun c _ => ih (List.cons_ne_nil _ _) c

theorem childAt_singled (h : s.Singled top names id) (several : names ≠ []) :
    s.childAt (names.map .str) top = some id := by
  induction h with
  | start => exact absurd rfl several
  | @child names parent id before after name above children here free first ih =>
    have last := childNamed_of_first children here first
    rw [List.map_append, List.map_singleton]
    cases names with
    | nil => exact above.eq_top rfl ▸ last
    | cons n names =>
      have some : (n :: names).map Value.str ≠ [] := List.cons_ne_nil _ _
      have longer := childAt_append (s := s) some (.str name) top
      rw [ih (List.cons_ne_nil _ _)] at longer
      exact longer.trans last

/-- A full name leads back. Where nothing is out of place, a node that is reached from a project by names that no
earlier sibling bears is found from there by its names. -/
theorem seek_singled (strays : s.strays = .empty) (project : s.isProject top = true) (h : s.Singled top names id)
    (several : names ≠ []) : s.seek top (.ofString (".".intercalate names)) = .ok (some id) := by
  have path : NamePath.ofString (".".intercalate names) = names.map .str :=
    congrArg _ (Text.parts_intercalate several h.free)
  rw [path, seek_line strays (.project project), List.findSome?_cons, childAt_singled h several]
  rfl

theorem isAdrift_of_empty (strays : s.strays = .empty) (id : NodeId) : s.isAdrift id = false := by
  have none : ∀ height id, s.adriftUp height id = false := by
    intro height
    induction height with
    | zero => exact fun _ => rfl
    | succ height ih =>
      intro id
      unfold adriftUp
      split
      · rw [strays, Strays.hasParent_empty]
      · rw [ih, Bool.and_false]
  exact none _ id

variable {root : NodeId}

/-- What hangs below a project in an ordered tree has a way up that ends there. -/
theorem Below.ascends (ordered : s.Ordered root) (project : s.isProject root = true) (way : s.Below root id) :
    ∃ line, s.Ascends id line ∧ line.getLast? = some root := by
  have structural : ∀ {id}, s.Below root id → s.Structural root id := fun way =>
    Relation.ReflTransGen.mono (fun _ _ => Or.inl) _ _ way
  induction way with
  | refl => exact ⟨[root], .project project, rfl⟩
  | @tail parent id above child ih =>
    obtain ⟨line, ascends, last⟩ := ih
    obtain ⟨hangs, d, body⟩ := ordered.child (structural above) child
    have other : s.isProject id = false := by rw [isProject, body]
    refine ⟨id :: line, .step other hangs ascends, ?_⟩
    rw [List.getLast?_cons_of_ne_nil ascends.ne_nil, last]

theorem Singled.structural (h : s.Singled root names id) : s.Structural root id := by
  induction h with
  | start => exact .refl
  | child _ children _ _ _ ih => exact ih.tail (.inl (children ▸ List.mem_append_right _ List.mem_cons_self))

section

variable (ordered : s.Ordered root) (project : s.isProject root = true)
include ordered

theorem Singled.hangs {parent : NodeId} {before after : List NodeId} (h : s.Singled root names parent)
    (children : s.children parent = before ++ id :: after) :
    (s.node id).parent = some parent ∧ s.isProject id = false := by
  have child : id ∈ s.children parent := children ▸ List.mem_append_right _ List.mem_cons_self
  obtain ⟨hangs, d, body⟩ := ordered.child h.structural child
  exact ⟨hangs, by rw [isProject, body]⟩

theorem Singled.not_isProject (h : s.Singled root names id) (several : names ≠ []) : s.isProject id = false := by
  cases h with
  | start => exact absurd rfl several
  | child above children => exact (above.hangs ordered children).2

include project

/-- There is one node more on the way up than there are names. -/
theorem Singled.ascends (h : s.Singled root names id) : ∃ line, s.Ascends id line ∧ line.length = names.length + 1 := by
  induction h with
  | start => exact ⟨[root], .project project, rfl⟩
  | @child _ _ id _ _ _ above children _ _ _ ih =>
    obtain ⟨line, ascends, length⟩ := ih
    obtain ⟨hangs, other⟩ := above.hangs ordered children
    refine ⟨id :: line, .step other hangs ascends, ?_⟩
    rw [List.length_cons, length, List.length_append, List.length_singleton]

theorem namesUp_singled (h : s.Singled root names id) (several : names ≠ []) {height : Nat}
    (le : names.length ≤ height) : s.namesUp height id = names.map .str := by
  induction h generalizing height with
  | start => exact absurd rfl several
  | @child names parent id before after name above children here free first ih =>
    have hangs := (above.hangs ordered children).1
    rw [List.length_append, List.length_singleton] at le
    obtain ⟨height, rfl⟩ := Nat.exists_eq_add_one_of_ne_zero (Nat.ne_of_gt (Nat.zero_lt_of_lt le))
    rw [namesUp, hangs, here, List.map_append, List.map_singleton]
    dsimp only
    cases names with
    | nil =>
      rw [above.eq_top rfl, if_pos project]
      rfl
    | cons n names =>
      have lower := above.not_isProject ordered (List.cons_ne_nil _ _)
      rw [lower, if_neg Bool.false_ne_true, ih (List.cons_ne_nil _ _) (Nat.le_of_succ_le_succ le)]

end

theorem joinNames_str (separator : String) (names : List String) :
    joinNames separator (names.map .str) = .ok (.str (separator.intercalate names)) := by
  have texts : ∀ f : Value → Except Error String, (∀ n, f (.str n) = .ok n) → (names.map .str).mapM f = .ok names := by
    intro f plain
    induction names with
    | nil => rfl
    | cons name names ih =>
      rw [List.map_cons, List.mapM_cons, plain, ih]
      rfl
  unfold joinNames
  rw [texts _ fun _ => rfl]
  rfl

/-- The names make up the full name. -/
theorem fullName_singled (strays : s.strays = .empty) (ordered : s.Ordered root) (project : s.isProject root = true)
    (h : s.Singled root names id) (several : names ≠ []) :
    s.fullName "." id = .ok (.str (".".intercalate names)) := by
  obtain ⟨line, ascends, length⟩ := h.ascends ordered project
  have short := ascends.length_le
  have le : names.length ≤ s.nodes.size + 1 := by omega
  have up := namesUp_singled ordered project h several le
  unfold fullName
  rw [isAdrift_of_empty strays, if_neg Bool.false_ne_true, up]
  match names, several with
  | [name], _ => rfl
  | name :: name' :: names, _ => exact joinNames_str "." (name :: name' :: names)

end Store

end DocTree
