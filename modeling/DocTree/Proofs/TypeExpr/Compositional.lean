import DocTree.Proofs.Document.Outside
import DocTree.Proofs.Renumber.Blocks
import DocTree.Proofs.TypeExpr.Composed
import DocTree.Proofs.TypeExpr.RoundTrip

/-!
# Types are put together from types

What a text is accepted as does not depend on what it becomes a part of.

* `Accepts text nodes t added` : the text is accepted as a type, and some nodes are added;
* `Renumbering.Carries` : the numbers of added nodes become others, in order; `exists_carries`;
* `Composes` : parentheses, arrays, unions, intersections, operators, tuples, references, functions and objects, put
  together from two texts, are accepted as the types put together from two types;
* `composes_of_accepts` : they are, whichever texts are accepted, and whatever blanks are put around these.
-/

namespace DocTree

/-- The numbers from one on become the numbers from another one on. -/
def Renumbering.Carries (ρ : Renumbering) (low low' count : Nat) : Prop := ∀ i < count, ρ.node (low + i) = low' + i

theorem exists_carries (low low' count : Nat) : ∃ ρ : Renumbering, ρ.Carries low low' count := by
  rcases Nat.le_total low low' with le | le
  · refine ⟨⟨swapBlocks low count (low' - low), .refl _⟩, fun i lt => ?_⟩
    have moved := swapBlocks_apply low count (low' - low) (low + i)
    rw [if_neg (by omega), if_pos (by omega)] at moved
    exact moved.trans (by omega)
  · refine ⟨⟨swapBlocks low' (low - low') count, .refl _⟩, fun i lt => ?_⟩
    have moved := swapBlocks_apply low' (low - low') count (low + i)
    rw [if_neg (by omega), if_neg (by omega), if_pos (by omega)] at moved
    exact moved.trans (by omega)

namespace TypeExpr

open Rule Grammar Document

variable {s s' text text' name : String} {e e' : Expr} {nodes nodes' all mid last : Array Node} {t t' : Ty}
  {added added' new new' : List Node}

/-- The text is accepted as a type, and the nodes of its inline declarations come behind those that are there. -/
def Accepts (text : String) (nodes : Array Node) (t : Ty) (added : List Node) : Prop :=
  ∃ e, parse text = .ok e ∧ build outsideBuilder e nodes = .ok t (nodes ++ added)

/-- The text with blanks put around it. -/
def Padded (text padded : String) : Prop := ∃ before after, padded.toList = before ++ (text.toList ++ after) ∧
  (∀ c ∈ before, Text.isBlank c = true) ∧ ∀ c ∈ after, Text.isBlank c = true

/-- What is put together from two texts is accepted as what is put together from two types. The nodes of the first type
come first, then those of the second one, then those of the whole. -/
structure Composes (name text text' : String) (all : Array Node) (t t' : Ty) (new new' : List Node) : Prop where
  parenthesized : Accepts ("(" ++ text ++ ")") all t new
  array : Accepts ("(" ++ text ++ ")[]") all (.array t) new
  union : Accepts ("(" ++ text ++ ") | (" ++ text' ++ ")") all (.union [t, t']) (new ++ new')
  intersection : Accepts ("(" ++ text ++ ") & (" ++ text' ++ ")") all (.intersection [t, t']) (new ++ new')
  operator : Accepts ("keyof (" ++ text ++ ")") all (.operator (.str "keyof") t) new
  tuple : Accepts ("[" ++ text ++ ", " ++ text' ++ "]") all (.tuple [t, t']) (new ++ new')
  reference : Accepts (name ++ "<" ++ text ++ ", " ++ text' ++ ">") all
    (.reference (.str name) .external [t, t'] .null) (new ++ new')
  function : Accepts ("() => " ++ text) all (.inline (all.size + new.length))
    (new ++ functionNodes (all.size + new.length) [] t)
  object : Accepts ("\x7b a: " ++ text ++ "; b: " ++ text' ++ " \x7d") all (.inline (all.size + (new ++ new').length))
    (new ++ new' ++ objectNodes (all.size + (new ++ new').length) [("a", t), ("b", t')])

/-! ## Building -/

theorem append_append_list (all : Array Node) (new new' : List Node) : all ++ new ++ new' = all ++ (new ++ new') :=
  Array.toList_inj.1 (by simp only [Array.toList_appendList, List.append_assoc])

theorem buildAll_two (first : build outsideBuilder e all = .ok t mid)
    (second : build outsideBuilder e' mid = .ok t' last) :
    buildAll outsideBuilder [e, e'] all = .ok [t, t'] last := by
  have more : buildAll outsideBuilder [e'] mid = .ok [t'] last := by
    unfold buildAll
    rw [bind_of_ok second]
    rfl
  unfold buildAll
  rw [bind_of_ok first, bind_of_ok more]
  rfl

theorem buildMembers_two {n n' : String} (first : build outsideBuilder e all = .ok t mid)
    (second : build outsideBuilder e' mid = .ok t' last) :
    buildMembers outsideBuilder [(n, e), (n', e')] all = .ok [(n, t), (n', t')] last := by
  have more : buildMembers outsideBuilder [(n', e')] mid = .ok [(n', t')] last := by
    unfold buildMembers
    rw [bind_of_ok second]
    rfl
  unfold buildMembers
  rw [bind_of_ok first, bind_of_ok more]
  rfl

theorem size_append_list (all : Array Node) (new : List Node) : (all ++ new).size = all.size + new.length := by
  rw [← Array.length_toList, Array.toList_appendList, List.length_append, Array.length_toList]

theorem inline_behind (nodes : NodeId → List Node) (all : Array Node) (new : List Node) :
    outsideBuilder.inline nodes (all ++ new) =
      .ok (.inline (all.size + new.length)) (all ++ (new ++ nodes (all.size + new.length))) := by
  rw [← append_append_list, ← size_append_list]
  rfl

/-! ## Putting together -/

theorem parse_of_primary {cs : List Char} (spelled : s.toList = cs) (h : (primary deep).Reads cs e []) :
    parse s = .ok e := by
  refine parse_of_reads ?_ (List.forall_mem_nil _)
  rw [spelled]
  exact reads_primary_alone h (next_nil _)

section

variable (h : Denotes text.toList e) (h' : Denotes text'.toList e')

include h in
theorem parse_parenthesized : parse ("(" ++ text ++ ")") = .ok e :=
  parse_of_primary (by simp) (h.parenthesized [])

include h in
theorem parse_array : parse ("(" ++ text ++ ")[]") = .ok (.array e) := by
  refine parse_of_reads ?_ (List.forall_mem_nil _)
  have reads := reads_operand_alone (h.array (next_nil _)) (next_nil _)
  simpa using reads

include h h' in
theorem parse_union : parse ("(" ++ text ++ ") | (" ++ text' ++ ")") = .ok (.union [e, e']) := by
  refine parse_of_reads ?_ (List.forall_mem_nil _)
  have reads := h.union h' (next_nil _)
  simpa using reads

include h h' in
theorem parse_intersection : parse ("(" ++ text ++ ") & (" ++ text' ++ ")") = .ok (.intersection [e, e']) := by
  refine parse_of_reads ?_ (List.forall_mem_nil _)
  have reads := h.intersection h' (next_nil _)
  simpa using reads

include h in
theorem parse_operator : parse ("keyof (" ++ text ++ ")") = .ok (.operator "keyof" e) :=
  parse_of_primary (by simp) (h.operator (w := "keyof") (by decide) (next_nil _))

include h h' in
theorem parse_tuple : parse ("[" ++ text ++ ", " ++ text' ++ "]") = .ok (.tuple [e, e']) :=
  parse_of_primary (by simp) (h.tuple (h'.pad blank_space (List.forall_mem_nil _)) [])

include h h' in
theorem parse_reference (ident : isIdentifier name.toList = true) (other : name ∉ keywords) :
    parse (name ++ "<" ++ text ++ ", " ++ text' ++ ">") = .ok (.name name [e, e']) :=
  parse_of_primary (by simp)
    (h.arguments ident other (h'.pad blank_space (List.forall_mem_nil _)) [])

include h in
theorem parse_function : parse ("() => " ++ text) = .ok (.function [] e) := by
  have spaced := h.pad blank_space (List.forall_mem_nil _)
  obtain ⟨after, blank, reads⟩ := spaced.function (next_nil _)
  simp only [List.append_nil] at reads
  refine parse_of_reads ?_ blank
  have whole := reads_primary_alone reads (next_blank blank)
  simpa using whole

include h h' in
theorem parse_object :
    parse ("\x7b a: " ++ text ++ "; b: " ++ text' ++ " \x7d") = .ok (.object [("a", e), ("b", e')]) :=
  have a : isIdentifier ['a'] = true := by decide
  have b : isIdentifier ['b'] = true := by decide
  parse_of_primary (by simp) (Denotes.object a b (h.pad blank_space (List.forall_mem_nil _))
    (h'.pad blank_space blank_space) [])

/-- Texts that are read as expressions compose, as the types do that are built from these. -/
theorem composes (h : Denotes text.toList e) (h' : Denotes text'.toList e')
    (first : build outsideBuilder e all = .ok t (all ++ new))
    (second : build outsideBuilder e' (all ++ new) = .ok t' (all ++ new ++ new'))
    (ident : isIdentifier name.toList = true) (other : name ∉ keywords) :
    Composes name text text' all t t' new new' := by
  have both := buildAll_two first second
  rw [append_append_list] at both
  refine ⟨⟨e, parse_parenthesized h, first⟩, ⟨_, parse_array h, ?_⟩, ⟨_, parse_union h h', ?_⟩,
    ⟨_, parse_intersection h h', ?_⟩, ⟨_, parse_operator h, ?_⟩, ⟨_, parse_tuple h h', ?_⟩,
    ⟨_, parse_reference h h' ident other, ?_⟩, ⟨_, parse_function h, ?_⟩, ⟨_, parse_object h h', ?_⟩⟩
  · unfold build
    rw [bind_of_ok first]
    rfl
  · unfold build
    rw [bind_of_ok both]
    rfl
  · unfold build
    rw [bind_of_ok both]
    rfl
  · unfold build
    rw [bind_of_ok first]
    rfl
  · unfold build
    rw [bind_of_ok both]
    rfl
  · unfold build
    rw [bind_of_ok both]
    rfl
  · have parameters : buildParameters outsideBuilder [] all = .ok [] all := rfl
    unfold build
    rw [bind_of_ok parameters, bind_of_ok first]
    exact inline_behind ..
  · have members : buildMembers outsideBuilder [("a", e), ("b", e')] all = _ := buildMembers_two first second
    rw [append_append_list] at members
    unfold build
    rw [bind_of_ok members]
    exact inline_behind ..

end

/-- Types are put together from types. Whichever two texts are accepted, whatever blanks are put around them and
whatever nodes are there: what is put together from them is accepted as what is put together from their types, with new
numbers for the nodes that they add. -/
theorem composes_of_accepts (h : Accepts s nodes t added) (h' : Accepts s' nodes' t' added')
    (ident : isIdentifier name.toList = true) (other : name ∉ keywords) (padded : Padded s text)
    (padded' : Padded s' text') (all : Array Node) : ∃ ρ ρ' : Renumbering, ρ.Carries nodes.size all.size added.length ∧
      ρ'.Carries nodes'.size (all.size + added.length) added'.length ∧
      Composes name text text' all (t.renumber ρ) (t'.renumber ρ') (added.map (Node.renumber ρ))
        (added'.map (Node.renumber ρ')) := by
  have denotes : ∀ {s text : String} {e : Expr}, parse s = .ok e → Padded s text → Denotes text.toList e := by
    rintro s text e parsed ⟨before, after, spelled, left, right⟩
    rw [spelled]
    exact (parse_iff_denotes.1 parsed).pad left right
  have moved : ∀ {e : Expr} {nodes all : Array Node} {t : Ty} {added : List Node} {ρ : Renumbering},
      build outsideBuilder e nodes = .ok t (nodes ++ added) → ρ.Carries nodes.size all.size added.length →
        build outsideBuilder e all = .ok (t.renumber ρ) (all ++ added.map (Node.renumber ρ)) := by
    intro e nodes all t added ρ built carries
    obtain ⟨new, same, elsewhere⟩ := build_outside built
    obtain rfl : added = new := by
      have lists := congrArg Array.toList same
      rw [Array.toList_appendList, Array.toList_appendList] at lists
      exact List.append_cancel_left lists
    exact elsewhere carries
  obtain ⟨e, parsed, built⟩ := h
  obtain ⟨e', parsed', built'⟩ := h'
  obtain ⟨ρ, carries⟩ := exists_carries nodes.size all.size added.length
  obtain ⟨ρ', carries'⟩ := exists_carries nodes'.size (all.size + added.length) added'.length
  have size : (all ++ added.map (Node.renumber ρ)).size = all.size + added.length := by
    rw [size_append_list, List.length_map]
  exact ⟨ρ, ρ', carries, carries', composes (denotes parsed padded) (denotes parsed' padded') (moved built carries)
    (moved built' (size ▸ carries')) ident other⟩

/-- A word in front of types that stands for itself, and an object of such, which is declared inline: they are arguments
of another such word, where there is a node already. -/
theorem composes_of_accepts_typeof :
    Accepts "keyof" #[] (.outside "keyof") [] ∧
    Accepts "\x7b a: keyof; b: keyof \x7d" #[] (.inline 0)
      (objectNodes 0 [("a", .outside "keyof"), ("b", .outside "keyof")]) ∧
    Accepts "typeof<\x7b a: keyof; b: keyof \x7d\t, keyof >" #[default]
      (.reference (.str "typeof") .external [.inline 1, .outside "keyof"] .null)
      (objectNodes 1 [("a", .outside "keyof"), ("b", .outside "keyof")]) := by
  have name : parse "keyof" = .ok (.name "keyof" []) := by
    have written : Written (fun _ => false) (.outside "keyof") "keyof".toList (.name "keyof" []) :=
      written_name (by decide) (by decide) (by decide)
    have parsed := written.whole.parse written.begins
    rwa [String.ofList_toList] at parsed
  have object : parse "\x7b a: keyof; b: keyof \x7d" =
      .ok (.object [("a", .name "keyof" []), ("b", .name "keyof" [])]) := by
    have spelled : "\x7b a: " ++ "keyof" ++ "; b: " ++ "keyof" ++ " \x7d" = "\x7b a: keyof; b: keyof \x7d" := by decide
    rw [← spelled]
    exact parse_object (parse_iff_denotes.1 name) (parse_iff_denotes.1 name)
  have first : Accepts "\x7b a: keyof; b: keyof \x7d" #[] (.inline 0)
      (objectNodes 0 [("a", .outside "keyof"), ("b", .outside "keyof")]) := ⟨_, object, rfl⟩
  have second : Accepts "keyof" #[] (.outside "keyof") [] := ⟨_, name, rfl⟩
  have ident : isIdentifier "typeof".toList = true := by decide
  have padded : Padded "\x7b a: keyof; b: keyof \x7d" "\x7b a: keyof; b: keyof \x7d\t" :=
    ⟨[], ['\t'], by decide, by decide, by decide⟩
  have padded' : Padded "keyof" "keyof " := ⟨[], [' '], by decide, by decide, by decide⟩
  obtain ⟨ρ, ρ', carries, _, composed⟩ :=
    composes_of_accepts first second ident (by decide) padded padded' #[default]
  have zero : ρ.node 0 = 1 := carries 0 (by decide)
  have nodes : objectNodes 1 [("a", .outside "keyof"), ("b", .outside "keyof")] =
      (objectNodes 0 [("a", .outside "keyof"), ("b", .outside "keyof")]).map (Node.renumber ρ) :=
    objectNodes_renumber _ carries
  have accepted := composed.reference
  rw [← nodes, Ty.renumber, zero] at accepted
  exact ⟨second, first, accepted⟩

end TypeExpr

end DocTree
