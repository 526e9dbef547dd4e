import DocTree.Proofs.Faithful.Mentions

/-!
# Exports one after the other

* `Represents programs w m id` : a node stands for the symbol that is mentioned;
* `Exported g programs earlier w` : so far, nodes stand for the exports in `earlier`, and for no other symbols of programs;
* `Exported.exports`, `Exported.module`, `Exported.modules` : what each step adds below the project;
* `Modules programs w project earlier specs ms ids` : modules with what is exported in them.
-/

namespace DocTree.Document

open Workspace

variable {g : Ground} {programs : List (String × Value)} {earlier mentions : List Mention} {m : Mention} {X : SymbolId}
  {name : String} {p : Program} {w w' : Workspace} {scope id : NodeId}

/-- A node stands for the symbol that is mentioned. -/
def Represents (programs : List (String × Value)) (w : Workspace) (m : Mention) (id : NodeId) : Prop :=
  ∃ X, Denotes programs m X ∧ w.nodeOf? X = some id

theorem Represents.later (h : Represents programs w m id) (widens : Widens w scope w') : Represents programs w' m id := by
  obtain ⟨X, denotes, bound⟩ := h
  exact ⟨X, denotes, widens.bound bound⟩

/-- What is bound is shown. -/
def AllShown (w : Workspace) : Prop := ∀ ⦃X id⦄, w.nodeOf? X = some id → w.Shows X id

/-- So far, nodes stand for the exports in `earlier` that are described, and for no other symbols of programs. -/
structure Exported (g : Ground) (programs : List (String × Value)) (earlier : List Mention) (w : Workspace) : Prop where
  filling : Filling g w
  distinct : Distinct programs
  table : w.programs = tableOf (placed 0 programs) .empty
  declared : ∀ {m X}, Denotes programs m X →
    X < g.top ∧ ((w.store.symbol X).description.isSome ↔ isOpaque (specOf programs m) = false)
  bound : ∀ {m X}, Denotes programs m X →
    ((w.nodeOf? X).isSome ↔ m ∈ earlier ∧ isOpaque (specOf programs m) = false)

theorem Exported.forall₂_news (h : Exported g programs earlier w) {symbols : List SymbolId}
    (denote : List.Forall₂ (Denotes programs) mentions symbols) :
    List.Forall₂ (Denotes programs) (newExports programs earlier mentions) (w.news symbols) := by
  apply forall₂_eraseDups fun here there => here.iff_of_distinct h.distinct there
  apply List.rel_filter _ denote
  intro m X denotes
  have created : w.wouldCreate X = true ↔
      ¬(m ∈ earlier ∧ isOpaque (specOf programs m) = false) ∧ isOpaque (specOf programs m) = false := by
    rw [wouldCreate_iff h.filling.sound, (h.declared denotes).2, ← Option.not_isSome_iff_eq_none, h.bound denotes]
  simp only [created]
  by_cases transparent : isOpaque (specOf programs m) = false <;> simp [transparent]

theorem Exported.below (h : Exported g programs earlier w) (knows : Knows 0 programs name p) : Below p g.top := by
  intro key X found
  obtain ⟨i, mem, _, _⟩ := (knows.symbols key X).1 found
  exact (h.declared ⟨i, mem, rfl⟩).1

theorem mem_of_fresh {symbols : List SymbolId} (sound : Sound g w) (ext : Extends w scope symbols w') (named : X < g.top)
    (unbound : w.nodeOf? X = none) (bound : w'.nodeOf? X = some id) : X ∈ symbols := by
  obtain ⟨_, _, root, mem, owns⟩ := ext.fresh unbound bound
  rcases Relation.ReflTransGen.cases_tail owns with rfl | ⟨b, _, owned⟩
  · exact mem
  · exact absurd named (Nat.not_lt_of_le (sound.catalog.members owned).1)

/-- Afterwards, nodes stand for what was exported before and for what is exported now. -/
theorem Exported.bound_iff (h : Exported g programs earlier w) {symbols : List SymbolId} {ids : List NodeId}
    (denote : List.Forall₂ (Denotes programs) mentions symbols) (ext : Extends w scope symbols w')
    (shows : ∀ {X id}, w.nodeOf? X = none → w'.nodeOf? X = some id → w'.Shows X id)
    (represent : List.Forall₂ (Represents programs w') (newExports programs earlier mentions) ids)
    (denotes : Denotes programs m X) :
    (w'.nodeOf? X).isSome ↔ m ∈ earlier ++ mentions ∧ isOpaque (specOf programs m) = false := by
  have before := h.bound denotes
  constructor
  · intro isSome
    obtain ⟨id, here⟩ := Option.isSome_iff_exists.1 isSome
    cases eq : w.nodeOf? X with
    | some _ =>
      obtain ⟨mem, transparent⟩ := before.1 (eq ▸ rfl)
      exact ⟨List.mem_append_left _ mem, transparent⟩
    | none =>
      have mem := mem_of_fresh h.filling.sound ext (h.declared denotes).1 eq here
      obtain ⟨m', inside, denotes'⟩ := exists_of_forall₂ (List.Forall₂.flip denote) mem
      cases (Denotes.iff_of_distinct h.distinct denotes' denotes).2 rfl
      cases shows eq here with
      | intro described =>
        rw [ext.kept.symbol] at described
        exact ⟨List.mem_append_right _ inside, (h.declared denotes).2.1 (described ▸ rfl)⟩
  · rintro ⟨mem, transparent⟩
    by_cases old : m ∈ earlier
    · obtain ⟨id, here⟩ := Option.isSome_iff_exists.1 (before.2 ⟨old, transparent⟩)
      rw [ext.bound here]
      rfl
    · have inside := (List.mem_append.1 mem).resolve_left old
      obtain ⟨id, _, Y, denotes', here⟩ := exists_of_forall₂ represent (mem_newExports.2 ⟨inside, transparent, old⟩)
      cases (Denotes.iff_of_distinct h.distinct denotes denotes').1 rfl
      rw [here]
      rfl

/-- Exports that are converted get nodes in their scope, in order, the new ones. -/
theorem Exported.exports (h : Exported g programs earlier w) (knows : Knows 0 programs name p) (proper : g.Proper scope)
    (container : w.store.isContainer scope = true) (way : w.store.Reaches g.project scope) {path : Value}
    {exports : Option Value} (eq : convertExports scope path p exports w = .ok () w')
    (same : ((partsOf exports).filterMap Value.string?).map (name, ·) = mentions) :
    Exported g programs (earlier ++ mentions) w' ∧ Widens w scope w' ∧
      (∃ ids, w'.store.node scope = (w.store.node scope).giveChildren ids ∧
        List.Forall₂ (Represents programs w') (newExports programs earlier mentions) ids) ∧
      ∀ {X id}, w.nodeOf? X = none → w'.nodeOf? X = some id → w'.Shows X id := by
  have sound := h.filling.sound.activate (some p.name)
  obtain ⟨names, symbols, w₁, listed, stand, named, converts, rfl⟩ :=
    (convertExports_meets (h.below knows) path exports h.filling.sound proper container).of_ok eq
  have denote : List.Forall₂ (Denotes programs) mentions symbols := by
    rw [← same, partsOf, listed]
    exact forall₂_denotes knows stand
  have active : Exported g programs earlier (w.activate (some p.name)) :=
    ⟨⟨sound, h.filling.tracked.of_same rfl rfl, h.filling.programs⟩, h.distinct, h.table, h.declared, h.bound⟩
  have hosts := hosts_of_named sound proper container named
  have ext := (converts.spec hosts).ext
  obtain ⟨⟨ids, node, bound⟩, shows⟩ := converts.contents hosts
  have represent : List.Forall₂ (Represents programs w₁) (newExports programs earlier mentions) ids :=
    forall₂_trans (active.forall₂_news denote) bound
  have bound' : ∀ {m X}, Denotes programs m X →
      ((w₁.nodeOf? X).isSome ↔ m ∈ earlier ++ mentions ∧ isOpaque (specOf programs m) = false) :=
    active.bound_iff denote ext shows represent
  refine ⟨⟨(filled_of_exports h.filling proper container named way converts).1, h.distinct,
    ext.kept.programs.trans h.table, fun {m X} denotes => ?_, bound'⟩,
    ⟨ext.widens.symbols, ext.widens.size, ext.widens.same, ext.widens.bound⟩, ⟨ids, node, represent⟩,
    fun unbound here => (shows unbound here).activate none⟩
  show X < g.top ∧ ((w₁.store.symbol X).description.isSome ↔ _)
  rw [ext.kept.symbol]
  exact h.declared denotes

/-- What was shown still is, and what is new is shown, too. -/
theorem AllShown.later (shown : AllShown w) (sound : Sound g w) (widens : Widens w g.project w')
    (fresh : ∀ {X id}, w.nodeOf? X = none → w'.nodeOf? X = some id → w'.Shows X id) : AllShown w' := by
  intro X id bound
  cases before : w.nodeOf? X with
  | none => exact fresh before bound
  | some id' =>
    cases (widens.bound before).symm.trans bound
    apply (shown before).later widens
    exact Nat.lt_of_lt_of_le sound.layout.project_lt (sound.bound before).1

/-! ## Modules -/

theorem Filling.nodeOf?_withModule (h : Filling g w) (program t : Value) (X : SymbolId) :
    (Document.withModule w program t).nodeOf? X = w.nodeOf? X := by
  have consistent : (w.activate (some program)).index.Consistent := h.sound.consistent
  unfold Document.withModule
  show (Workspace.announce _ _ _).nodeOf? X = _
  rw [(quiet_announce ..).nodeOf?, nodeOf?_create consistent, if_neg nofun]
  rfl

theorem Filling.widens_withModule (h : Filling g w) (program t : Value) :
    Widens w g.project (Document.withModule w program t) := by
  obtain ⟨grown, _, kept, _⟩ := h.withModule program t
  exact ⟨kept.symbols, Nat.le_of_lt grown.size, grown.same, fun bound => (h.nodeOf?_withModule ..).trans bound⟩

/-- With a new module, nothing more is exported. -/
theorem Exported.createModule (h : Exported g programs earlier w) {program t : Value} {id : NodeId}
    (eq : createModule program t w = .ok id w') :
    Exported g programs earlier w' ∧ w' = withModule w program t ∧ id = w.store.nodes.size := by
  obtain ⟨filled, _⟩ := (createModule_meets h.filling program t).of_ok eq
  obtain ⟨rfl, rfl⟩ := (createModule_leads h.filling program t).of_ok eq
  obtain ⟨_, _, kept, _⟩ := h.filling.withModule program t
  refine ⟨⟨filled.filling, h.distinct, kept.programs.trans h.table, fun {m X} denotes => ?_,
    fun {m X} denotes => ?_⟩, rfl, rfl⟩
  · rw [Store.symbol, filled.symbols]
    exact h.declared denotes
  · rw [h.filling.nodeOf?_withModule]
    exact h.bound denotes

def moduleNode (project : NodeId) (t : Value) (ids : List NodeId) : Node :=
  ⟨(Value.lookup "name" t.fields).getD .null, .module, some project, .declaration { children := ids }⟩

/-- Loading a module puts it below the project, and the new exports into it. -/
theorem Exported.module (h : Exported g programs earlier w) (shown : AllShown w) {path : String} {t : Value}
    (eq : loadModule path t w = .ok () w') :
    Exported g programs (earlier ++ exportsOf programs t.fields) w' ∧ AllShown w' ∧ Widens w g.project w' ∧
      w.store.nodes.size < w'.store.nodes.size ∧
      w'.store.node g.project = (w.store.node g.project).giveChildren [w.store.nodes.size] ∧
      ∃ ids, w'.store.node w.store.nodes.size = moduleNode g.project t ids ∧
        List.Forall₂ (Represents programs w') (newExports programs earlier (exportsOf programs t.fields)) ids := by
  cases t with
  | object fields =>
    unfold loadModule at eq
    simp only at eq
    cases here : Value.lookup "name" fields with
    | none =>
      rw [here] at eq
      cases eq
    | some name =>
      simp only [here] at eq
      obtain ⟨p, w, found, rest⟩ := bind_ok eq
      obtain ⟨rfl, knows⟩ := knows_of_programNamed h.distinct h.table found
      obtain ⟨id, w₂, made, last⟩ := bind_ok rest
      obtain ⟨h', rfl, rfl⟩ := h.createModule made
      obtain ⟨grown, _, _, node⟩ := h.filling.withModule p.name name
      have layout := h.filling.sound.layout
      have widens := h.filling.widens_withModule p.name name
      have container : (withModule w p.name name).store.isContainer w.store.nodes.size = true := by
        rw [Store.isContainer, node]
        rfl
      have way : (withModule w p.name name).store.Reaches g.project w.store.nodes.size := by
        apply Store.Reaches.single
        apply Node.mem_successors.2
        left
        apply Node.mem_parts_of_mem_children
        show w.store.nodes.size ∈ (withModule w p.name name).store.children g.project
        rw [grown.children h.filling.isContainer_project, if_pos rfl]
        simp
      obtain ⟨h'', widens', ⟨ids, node', represent⟩, shows⟩ :=
        h'.exports knows (Or.inr layout.base_le) container way last rfl
      have both := widens.inner (Nat.le_refl _) widens'
      have shown' : AllShown w' := shown.later h.filling.sound both fun unbound bound =>
        shows ((h.filling.nodeOf?_withModule ..).trans unbound) bound
      refine ⟨h'', shown', both, Nat.lt_of_lt_of_le grown.size widens'.size, ?_, ids, ?_, represent⟩
      · rw [widens'.same (Nat.lt_trans layout.project_lt_size grown.size) (Nat.ne_of_lt layout.project_lt_size),
          grown.widened]
      · rw [node', node, moduleNode]
        show _ = Node.mk ((Value.lookup "name" fields).getD .null) _ _ _
        rw [here]
        rfl
  | _ => cases eq

/-- Modules with what is exported in them; `ids` are the nodes of all exports. -/
inductive Modules (programs : List (String × Value)) (w : Workspace) (project : NodeId) :
    List Mention → List Value → List NodeId → List NodeId → Prop
  | nil (earlier : List Mention) : Modules programs w project earlier [] [] []
  | cons {earlier : List Mention} {t : Value} {ts : List Value} {m : NodeId} {ms ids rest : List NodeId} :
      w.store.node m = moduleNode project t ids →
      List.Forall₂ (Represents programs w) (newExports programs earlier (exportsOf programs t.fields)) ids →
      Modules programs w project (earlier ++ exportsOf programs t.fields) ts ms rest →
      Modules programs w project earlier (t :: ts) (m :: ms) (ids ++ rest)

/-- Loading modules puts them below the project, in order. -/
theorem Exported.modules (h : Exported g programs earlier w) (shown : AllShown w) {source : Value} {i : Nat}
    {ts : List Value} (eq : loadModules source i ts w = .ok () w') :
    Exported g programs (earlier ++ ts.flatMap fun t => exportsOf programs t.fields) w' ∧ AllShown w' ∧
      Widens w g.project w' ∧ ∃ ms ids, w'.store.node g.project = (w.store.node g.project).giveChildren ms ∧
        Modules programs w' g.project earlier ts ms ids := by
  induction ts generalizing w i earlier with
  | nil =>
    cases eq
    refine ⟨?_, shown, ⟨rfl, Nat.le_refl _, fun _ _ => rfl, id⟩, [], [], (Node.giveChildren_nil _).symm, .nil earlier⟩
    simpa using h
  | cons t ts ih =>
    obtain ⟨⟨⟩, w₁, first, eq⟩ := bind_ok eq
    obtain ⟨h₁, shown₁, widens, more, project, ids, node, represent⟩ := h.module shown first
    obtain ⟨h₂, shown₂, widens₂, ms, rest, project₂, modules⟩ := ih h₁ shown₁ eq
    have ne : w.store.nodes.size ≠ g.project := Nat.ne_of_gt h.filling.sound.layout.project_lt_size
    refine ⟨?_, shown₂, widens.trans widens₂, w.store.nodes.size :: ms, ids ++ rest, ?_, .cons ?_ ?_ modules⟩
    · rw [List.flatMap_cons, ← List.append_assoc]
      exact h₂
    · rw [project₂, project, Node.giveChildren_giveChildren]
      rfl
    · rw [widens₂.same more ne, node]
    · exact represent.imp fun _ _ here => here.later widens₂

end DocTree.Document
